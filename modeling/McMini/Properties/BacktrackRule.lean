import McMini.Properties.ClockVectors
import McMini.Properties.SearchHistory

/-!
# Which races have backtrack points

The rule for backtrack points looks at every runner and at the whole trace: for the last transition
with which the pending transition of the runner races, the runners by which it gets ahead of that
transition are to be explored, or all of them (`BacktracksFor`). The search applies the rule to the
runner which moved, and to the other runners at the last transition only. That is enough for
what was found before to remain right: the race of a runner which did not move is where it was, as
are the runners which get it ahead, and the sets of the items only grow (`RuleKept`).

This is so for the runners which have been known since the transition they race with was executed,
and for those which have moved since (`backtracksFor_of_knownSince`). The pending transitions of the
others are never compared with what the trace was when they became known; what becomes of them is
found out from the default relations.
-/

namespace McMini

open Search Foundation

variable {source : ProcessSource} {config : Configuration} {callbacks : Finset Callback}
  {c c' : Coordinator} {s s' : Search} {hs : List ItemHistory} {stack stack' : List StackItem}
  {item item' : StackItem} {tr : List Transition} {next : Option Transition}
  {i j n : ℕ} {p q r : RunnerId} {t : Transition}

/-! ### The rule -/

/-- The runners which are to be explored from the item, have been, or need not be. -/
def StackItem.covered (item : StackItem) : Finset RunnerId :=
  item.backtrackSet ∪ item.doneSet ∪ item.sleepSet

/-- The transition at `i` and what `p` executes next can be reordered. -/
def RacesAt (config : Configuration) (tr : List Transition) (next : Option Transition)
    (stack : List StackItem) (i : ℕ) (p : RunnerId) : Prop :=
  ∃ S_i next_sp, tr[i]? = some S_i ∧ next = some next_sp ∧
    areDependent config.dependencyRelation next_sp S_i = true ∧
    areCoenabled config.coenabledRelation next_sp S_i = true ∧
    happensBeforeThread stack i p = .ok false

/-- The position is the last one at which what `p` executes next races. -/
def LastRaceAt (config : Configuration) (tr : List Transition) (next : Option Transition)
    (stack : List StackItem) (i : ℕ) (p : RunnerId) : Prop :=
  RacesAt config tr next stack i p ∧ ∀ j, i < j → ¬ RacesAt config tr next stack j p

/-- By `q` the runner `p` gets ahead of the transition at `i`. -/
def GetsAhead (stack : List StackItem) (i : ℕ) (p q : RunnerId) : Prop :=
  q = p ∨ threadsRaceAfter stack i q p = .ok true

/-- Of the enabled runners by which `p` gets ahead of the transition at `i` one is covered. If
there is none, all enabled runners are. -/
def BacktracksFor (stack : List StackItem) (i : ℕ) (p : RunnerId) : Prop :=
  ∀ item, stack[i]? = some item →
    ((∃ q ∈ item.enabledRunners, GetsAhead stack i p q) →
      ∃ q ∈ item.enabledRunners, GetsAhead stack i p q ∧ q ∈ item.covered) ∧
    ((∀ q ∈ item.enabledRunners, ¬ GetsAhead stack i p q) → item.enabledRunners ⊆ item.covered)

/-! ### What the tests look at -/

/-- The stacks have the same transitions below their tops, and the same clocks there. -/
structure SameClocks (stack stack' : List StackItem) : Prop where
  length : stack'.length = stack.length
  out : ∀ i, i + 1 < stack.length →
    stack'[i]?.map (·.outTransition) = stack[i]?.map (·.outTransition)
  top : stack'.getLast?.map (·.perRunnerClocks) = stack.getLast?.map (·.perRunnerClocks)

theorem getTransition_eq_elim (stack : List StackItem) (i : ℕ) :
    getTransition stack i =
      (stack[i]?.map (·.outTransition)).elim (.error .outOfRange) TransitionPointer.deref := by
  rw [getTransition, stackAt]
  cases stack[i]? with
  | none => rfl
  | some item => rfl

/-- The clock vector of the runner, in what an item keeps. -/
theorem clockVectorOf_eq_elim (item : StackItem) (p : RunnerId) :
    item.clockVectorOf p = (item.perRunnerClocks[p]?).elim
      (.error (.undefinedBehavior "per_runner_clocks[p] is out of bounds")) fun runner =>
        .ok runner.cv := by
  rw [StackItem.clockVectorOf]
  cases item.perRunnerClocks[p]? with
  | none => rfl
  | some runner => rfl

/-- The test reads a transition, and the clock of the runner at the top. -/
theorem happensBeforeThread_eq_bind (stack : List StackItem) (i : ℕ) (p : RunnerId) :
    happensBeforeThread stack i p = (do
      let S_i ← getTransition stack i
      let cv ← (stack.getLast?.map (·.perRunnerClocks[p]?)).elim
        (.error (.undefinedBehavior "stack.back()")) fun runner =>
          runner.elim (.error (.undefinedBehavior "per_runner_clocks[p] is out of bounds"))
            fun runner => .ok runner.cv
      return i ≤ cv.valueFor S_i.executor) := by
  rw [happensBeforeThread, stackBack]
  cases stack.getLast? with
  | none => rfl
  | some top =>
    rw [Option.map_some, Option.elim_some, ← clockVectorOf_eq_elim]
    rfl

theorem happensBeforeThread_congr
    (hout : stack'[i]?.map (·.outTransition) = stack[i]?.map (·.outTransition))
    (hclock : stack'.getLast?.map (·.perRunnerClocks[p]?) =
      stack.getLast?.map (·.perRunnerClocks[p]?)) :
    happensBeforeThread stack' i p = happensBeforeThread stack i p := by
  rw [happensBeforeThread_eq_bind, happensBeforeThread_eq_bind, getTransition_eq_elim,
    getTransition_eq_elim, hout, hclock]

theorem pendingTransitionFor_eq_ok {u : Transition} :
    c.pendingTransitionFor p = .ok u ↔ c.currentProgramModel.nextSteps.lookup p = some u := by
  rw [Coordinator.pendingTransitionFor]
  cases c.currentProgramModel.nextSteps.lookup p <;> simp

namespace SameClocks

theorem symm (h : SameClocks stack stack') : SameClocks stack' stack :=
  ⟨h.length.symm, fun i hi => (h.out i (h.length ▸ hi)).symm, h.top.symm⟩

theorem getTransition (h : SameClocks stack stack') (hi : i + 1 < stack.length) :
    getTransition stack' i = getTransition stack i := by
  rw [getTransition_eq_elim, getTransition_eq_elim, h.out i hi]

theorem happensBeforeThread (h : SameClocks stack stack') (hi : i + 1 < stack.length)
    (p : RunnerId) : happensBeforeThread stack' i p = happensBeforeThread stack i p := by
  refine happensBeforeThread_congr (h.out i hi) ?_
  have hclocks := congrArg (Option.map (·[p]?)) h.top
  rwa [Option.map_map, Option.map_map] at hclocks

theorem threadsRaceAfter (h : SameClocks stack stack') (i : ℕ) (q p : RunnerId) :
    threadsRaceAfter stack' i q p = threadsRaceAfter stack i q p := by
  rw [McMini.threadsRaceAfter, McMini.threadsRaceAfter, h.length]
  refine anyM_congr fun j hj => ?_
  have hlt : j + 1 < stack.length := by
    have hmem := List.mem_range'_1.mp hj
    omega
  rw [h.getTransition hlt, h.happensBeforeThread hlt p]

theorem racesAt_iff (h : SameClocks stack stack') (hi : i + 1 < stack.length) :
    RacesAt config tr next stack' i p ↔ RacesAt config tr next stack i p := by
  rw [RacesAt, RacesAt, h.happensBeforeThread hi]

theorem getsAhead_iff (h : SameClocks stack stack') :
    GetsAhead stack' i p q ↔ GetsAhead stack i p q := by
  rw [GetsAhead, GetsAhead, h.threadsRaceAfter]

theorem lastRaceAt_iff (h : SameClocks stack stack') (htr : tr.length < stack.length) :
    LastRaceAt config tr next stack' i p ↔ LastRaceAt config tr next stack i p := by
  have hraces : ∀ j, RacesAt config tr next stack' j p ↔ RacesAt config tr next stack j p := by
    intro j
    by_cases hj : j < tr.length
    · exact h.racesAt_iff (by omega)
    · have hnot : ∀ st, ¬ RacesAt config tr next st j p := by
        rintro st ⟨S_j, -, hS_j, -⟩
        exact hj (List.getElem?_eq_some_iff.mp hS_j).1
      exact iff_of_false (hnot _) (hnot _)
  rw [LastRaceAt, LastRaceAt, hraces i]
  simp only [hraces]

end SameClocks

/-! ### Growing sets -/

/-- The items have been given more to be explored, and are otherwise the same. -/
structure Covers (stack stack' : List StackItem) : Prop where
  same : stack'.map (·.withoutBacktrackSet) = stack.map (·.withoutBacktrackSet)
  backtrack : ∀ (i : ℕ) (item item' : StackItem), stack[i]? = some item → stack'[i]? = some item' →
    item.backtrackSet ⊆ item'.backtrackSet

theorem Covers.refl (stack : List StackItem) : Covers stack stack :=
  ⟨rfl, fun _ _ _ h h' => (Option.some.inj (h.symm.trans h')) ▸ Finset.Subset.refl _⟩

theorem Covers.exists (h : Covers stack stack') (hi : stack'[i]? = some item') :
    ∃ item, stack[i]? = some item ∧ item'.withoutBacktrackSet = item.withoutBacktrackSet ∧
      item.backtrackSet ⊆ item'.backtrackSet := by
  have hmap := congrArg (·[i]?) h.same
  simp only [List.getElem?_map, hi, Option.map_some] at hmap
  obtain ⟨item, hitem, heq⟩ := Option.map_eq_some_iff.mp hmap.symm
  exact ⟨item, hitem, heq.symm, h.backtrack i item item' hitem hi⟩

theorem Covers.trans {stack'' : List StackItem} (h : Covers stack stack')
    (h' : Covers stack' stack'') : Covers stack stack'' := by
  refine ⟨h'.same.trans h.same, fun i item item'' hitem hitem'' => ?_⟩
  obtain ⟨item', hitem', -, hsub⟩ := h'.exists hitem''
  exact (h.backtrack i item item' hitem hitem').trans hsub

theorem Covers.sameClocks (h : Covers stack stack') : SameClocks stack stack' := by
  have hlength := congrArg List.length h.same
  rw [List.length_map, List.length_map] at hlength
  have hview : ∀ {β : Type} (f : StackItem → β), (∀ item, f item.withoutBacktrackSet = f item) →
      stack'.map f = stack.map f := by
    intro β f hf
    have hmap := congrArg (List.map f) h.same
    rw [List.map_map, List.map_map] at hmap
    have hcomp : f ∘ (·.withoutBacktrackSet) = f := funext hf
    rwa [hcomp] at hmap
  refine ⟨hlength, fun i _ => ?_, ?_⟩
  · rw [← List.getElem?_map, ← List.getElem?_map, hview (·.outTransition) fun _ => rfl]
  · rw [← List.getLast?_map, ← List.getLast?_map, hview (·.perRunnerClocks) fun _ => rfl]

theorem covered_subset (hsame : item'.withoutBacktrackSet = item.withoutBacktrackSet)
    (h : item.backtrackSet ⊆ item'.backtrackSet) : item.covered ⊆ item'.covered := by
  rw [eq_of_withoutBacktrackSet hsame]
  exact Finset.union_subset_union_left (Finset.union_subset_union_left h)

theorem enabledRunners_eq (hsame : item'.withoutBacktrackSet = item.withoutBacktrackSet) :
    item'.enabledRunners = item.enabledRunners := by
  rw [eq_of_withoutBacktrackSet hsame]

/-- The rule stays fulfilled when the same runners get ahead and more of them are covered. -/
theorem BacktracksFor.mono (h : BacktracksFor stack i p)
    (hitems : ∀ item', stack'[i]? = some item' → ∃ item, stack[i]? = some item ∧
      item'.enabledRunners = item.enabledRunners ∧ item.covered ⊆ item'.covered)
    (hahead : ∀ q, GetsAhead stack' i p q ↔ GetsAhead stack i p q) : BacktracksFor stack' i p := by
  intro item' hitem'
  obtain ⟨item, hitem, henabled, hcovered⟩ := hitems item' hitem'
  obtain ⟨hsome, hnone⟩ := h item hitem
  simp only [hahead, henabled]
  refine ⟨fun hq => ?_, fun hq => (hnone hq).trans hcovered⟩
  obtain ⟨q, hq, hqahead, hmem⟩ := hsome hq
  exact ⟨q, hq, hqahead, hcovered hmem⟩

/-- The rule stays fulfilled when more is to be explored. -/
theorem BacktracksFor.of_covers (h : BacktracksFor stack i p) (hcovers : Covers stack stack') :
    BacktracksFor stack' i p := by
  refine h.mono (fun item' hitem' => ?_) fun q => hcovers.sameClocks.getsAhead_iff
  obtain ⟨item, hitem, hsame, hsub⟩ := hcovers.exists hitem'
  exact ⟨item, hitem, enabledRunners_eq hsame, covered_subset hsame hsub⟩

/-! ### An update at one position -/

theorem backtrackSet_subset_insert (item : StackItem) (q : RunnerId) :
    item.backtrackSet ⊆ (item.insertIntoBacktrackSetUnlessCompleted q).backtrackSet := by
  unfold StackItem.insertIntoBacktrackSetUnlessCompleted
  split_ifs
  · exact Finset.Subset.refl _
  · exact Finset.subset_insert _ _

theorem covered_subset_insert (item : StackItem) (q : RunnerId) :
    item.covered ⊆ (item.insertIntoBacktrackSetUnlessCompleted q).covered :=
  covered_subset (insertIntoBacktrackSetUnlessCompleted_withoutBacktrackSet item q)
    (backtrackSet_subset_insert item q)

/-- A runner which is to be explored unless it has been is covered. -/
theorem mem_covered_insert (item : StackItem) (q : RunnerId) :
    q ∈ (item.insertIntoBacktrackSetUnlessCompleted q).covered := by
  unfold StackItem.insertIntoBacktrackSetUnlessCompleted StackItem.covered
  split_ifs with hdone
  · have hmem : q ∈ item.doneSet := of_decide_eq_true hdone
    exact Finset.mem_union_left _ (Finset.mem_union_right _ hmem)
  · exact Finset.mem_union_left _ (Finset.mem_union_left _ (Finset.mem_insert_self _ _))

/-- Inserting runners one after the other only adds to the backtrack set, and covers them. -/
theorem foldl_insert (l : List RunnerId) (item : StackItem) :
    item.backtrackSet ⊆ (l.foldl StackItem.insertIntoBacktrackSetUnlessCompleted item).backtrackSet ∧
      item.covered ⊆ (l.foldl StackItem.insertIntoBacktrackSetUnlessCompleted item).covered ∧
      ∀ q ∈ l, q ∈ (l.foldl StackItem.insertIntoBacktrackSetUnlessCompleted item).covered := by
  induction l generalizing item with
  | nil => exact ⟨Finset.Subset.refl _, Finset.Subset.refl _, fun q hq => absurd hq List.not_mem_nil⟩
  | cons q l ih =>
    obtain ⟨hbacktrack, hcovered, hmem⟩ := ih (item.insertIntoBacktrackSetUnlessCompleted q)
    refine ⟨(backtrackSet_subset_insert item q).trans hbacktrack,
      (covered_subset_insert item q).trans hcovered, fun r hr => ?_⟩
    rcases List.mem_cons.mp hr with rfl | hr
    · exact hcovered (mem_covered_insert item r)
    · exact hmem r hr

theorem backtrackSet_subset_insertBacktrackPoints (item : StackItem) (e : List RunnerId) :
    item.backtrackSet ⊆ (item.insertBacktrackPoints e).backtrackSet := by
  cases e with
  | nil => exact (foldl_insert _ item).1
  | cons q e =>
    rw [StackItem.insertBacktrackPoints]
    split_ifs
    · exact Finset.Subset.refl _
    · exact backtrackSet_subset_insert item q

/-- What the search inserts covers one of the runners, or all which are enabled. -/
theorem covered_insertBacktrackPoints (item : StackItem) (e : List RunnerId) :
    (e ≠ [] → ∃ q ∈ e, q ∈ (item.insertBacktrackPoints e).covered) ∧
      (e = [] → item.enabledRunners ⊆ (item.insertBacktrackPoints e).covered) := by
  cases e with
  | nil =>
    refine ⟨fun hne => absurd rfl hne, fun _ q hq => ?_⟩
    obtain ⟨-, hcovered, hmem⟩ := foldl_insert
      ((inOrder item.enabledRunners).filter fun q => !item.sleepSetContains q) item
    by_cases hasleep : q ∈ item.sleepSet
    · exact hcovered (Finset.mem_union_right _ hasleep)
    · refine hmem q (List.mem_filter.mpr ⟨mem_inOrder.mpr hq, ?_⟩)
      simpa [StackItem.sleepSetContains] using hasleep
  | cons q e =>
    refine ⟨fun _ => ?_, fun hnil => absurd hnil (List.cons_ne_nil q e)⟩
    rw [StackItem.insertBacktrackPoints]
    split_ifs with hany
    · obtain ⟨q', hq', hmem⟩ := List.any_eq_true.mp hany
      have hmem' : q' ∈ item.backtrackSet := of_decide_eq_true hmem
      exact ⟨q', hq', Finset.mem_union_left _ (Finset.mem_union_left _ hmem')⟩
    · exact ⟨q, List.mem_cons_self, mem_covered_insert item q⟩

/-- The runners ahead are the enabled ones by which `p` gets ahead, without the sleeping ones. -/
theorem mem_runnersAhead_iff {e : List RunnerId} (h : runnersAhead stack item i p = .ok e) :
    q ∈ e ↔ (q ∈ item.enabledRunners ∧ GetsAhead stack i p q) ∧ q ∉ item.sleepSet := by
  obtain ⟨l, hl, h⟩ := bind_eq_ok.mp h
  rw [← Except.ok.inj h, List.mem_filter, (filterM_eq_ok hl).2, mem_inOrder]
  have hasleep : (!item.sleepSetContains q) = true ↔ q ∉ item.sleepSet := by
    simp [StackItem.sleepSetContains]
  have hahead : (if q == p then (return true : Except Failure Bool)
      else threadsRaceAfter stack i q p) = .ok true ↔ GetsAhead stack i p q := by
    by_cases hq : q = p
    · rw [if_pos (beq_iff_eq.mpr hq)]
      exact iff_of_true rfl (.inl hq)
    · rw [if_neg fun h => hq (beq_iff_eq.mp h)]
      exact ⟨.inr, fun h => h.resolve_left hq⟩
  rw [hasleep, hahead]

theorem hasReversibleRace_eq_ok {S_i next_sp : Transition} {b : Bool}
    (h : hasReversibleRace config stack S_i next_sp i p = .ok b) :
    b = true ↔ areDependent config.dependencyRelation next_sp S_i = true ∧
      areCoenabled config.coenabledRelation next_sp S_i = true ∧
        happensBeforeThread stack i p = .ok false := by
  unfold hasReversibleRace at h
  split_ifs at h with hrelated
  · obtain ⟨before, hbefore, h⟩ := bind_eq_ok.mp h
    obtain ⟨hdependent, hcoenabled⟩ := Bool.and_eq_true_iff.mp hrelated
    rw [← Except.ok.inj h, hbefore, Except.ok.injEq, Bool.not_eq_true']
    exact ⟨fun hnot => ⟨hdependent, hcoenabled, hnot⟩, fun hrace => hrace.2.2⟩
  · rw [← Except.ok.inj h]
    refine iff_of_false Bool.false_ne_true fun hrace => hrelated ?_
    rw [hrace.1, hrace.2.1]
    rfl

/-- **An update at a position** finds out whether there is a race there, and fulfils the rule if
there is. -/
theorem updateAtIndex_spec {S_i next_sp : Transition} {b : Bool}
    (h : dynamicallyUpdateBacktrackSetsAtIndex config stack S_i next_sp i p = .ok (b, stack'))
    (hS_i : tr[i]? = some S_i) :
    Covers stack stack' ∧ (b = true ↔ RacesAt config tr (some next_sp) stack i p) ∧
      (b = true → BacktracksFor stack' i p) := by
  unfold dynamicallyUpdateBacktrackSetsAtIndex at h
  obtain ⟨pre_si, hpre, h⟩ := bind_eq_ok.mp h
  obtain ⟨race, hrace, h⟩ := bind_eq_ok.mp h
  have hitem := stackAt_eq_ok.mp hpre
  have hiff : race = true ↔ RacesAt config tr (some next_sp) stack i p := by
    rw [hasReversibleRace_eq_ok hrace, RacesAt]
    constructor
    · exact fun h => ⟨S_i, next_sp, hS_i, rfl, h⟩
    · rintro ⟨S, u, hS, hu, h⟩
      rw [hS_i] at hS
      obtain rfl := Option.some.inj hS
      obtain rfl := Option.some.inj hu
      exact h
  cases race with
  | false =>
    obtain ⟨rfl, rfl⟩ := Prod.mk.inj (Except.ok.inj h)
    exact ⟨.refl _, hiff, fun h => absurd h Bool.false_ne_true⟩
  | true =>
    obtain ⟨e, he, h⟩ := bind_eq_ok.mp h
    obtain ⟨rfl, rfl⟩ := Prod.mk.inj (Except.ok.inj h)
    have hcovers : Covers stack (stack.set i (pre_si.insertBacktrackPoints e)) := by
      refine ⟨map_set_eq_map hitem (insertBacktrackPoints_withoutBacktrackSet _ _),
        fun j item item' hj hj' => ?_⟩
      by_cases hij : i = j
      · subst hij
        obtain ⟨hlt, -⟩ := List.getElem?_eq_some_iff.mp hitem
        rw [List.getElem?_set_self hlt] at hj'
        rw [← Option.some.inj hj', ← Option.some.inj (hitem.symm.trans hj)]
        exact backtrackSet_subset_insertBacktrackPoints pre_si e
      · rw [List.getElem?_set_ne hij] at hj'
        rw [Option.some.inj (hj.symm.trans hj')]
    refine ⟨hcovers, hiff, fun _ item' hitem' => ?_⟩
    obtain ⟨hlt, -⟩ := List.getElem?_eq_some_iff.mp hitem
    rw [List.getElem?_set_self hlt] at hitem'
    obtain rfl := Option.some.inj hitem'
    have hsame := insertBacktrackPoints_withoutBacktrackSet pre_si e
    have henabled := enabledRunners_eq hsame
    have hasleep : pre_si.sleepSet ⊆ (pre_si.insertBacktrackPoints e).covered := by
      refine Finset.Subset.trans ?_ (covered_subset hsame
        (backtrackSet_subset_insertBacktrackPoints pre_si e))
      exact Finset.subset_union_right
    have hahead : ∀ q, GetsAhead (stack.set i (pre_si.insertBacktrackPoints e)) i p q ↔
        GetsAhead stack i p q := fun q => hcovers.sameClocks.getsAhead_iff
    obtain ⟨hsome, hnone⟩ := covered_insertBacktrackPoints pre_si e
    simp only [hahead, henabled]
    constructor
    · rintro ⟨q, hq, hqahead⟩
      -- the runners ahead may all be asleep
      by_cases he' : e = []
      · have hmem : q ∈ pre_si.sleepSet := by
          by_contra hawake
          have hmem := (mem_runnersAhead_iff he).mpr ⟨⟨hq, hqahead⟩, hawake⟩
          rw [he'] at hmem
          exact absurd hmem List.not_mem_nil
        exact ⟨q, hq, hqahead, hasleep hmem⟩
      · obtain ⟨q', hq', hmem⟩ := hsome he'
        obtain ⟨⟨hq'enabled, hq'ahead⟩, -⟩ := (mem_runnersAhead_iff he).mp hq'
        exact ⟨q', hq'enabled, hq'ahead, hmem⟩
    · intro hnobody
      refine hnone (List.eq_nil_iff_forall_not_mem.mpr fun q hq => ?_)
      obtain ⟨⟨hqenabled, hqahead⟩, -⟩ := (mem_runnersAhead_iff he).mp hq
      exact hnobody q hqenabled hqahead

/-! ### The whole update -/

/-- The other runners are examined at the last transition. -/
theorem updateForOthers_spec {S_n : Transition} {top : ℕ} {thread_ids : List RunnerId}
    (h : updateForOthers config c S_n top thread_ids stack = .ok stack') (hS_n : tr[top]? = some S_n)
    (htop : top + 1 < stack.length) :
    Covers stack stack' ∧ ∀ p ∈ thread_ids, (∃ u, c.currentProgramModel.nextSteps.lookup p = some u) ∧
      (RacesAt config tr (c.currentProgramModel.nextSteps.lookup p) stack top p →
        BacktracksFor stack' top p) := by
  induction thread_ids generalizing stack with
  | nil => exact ⟨Except.ok.inj h ▸ .refl _, fun p hp => absurd hp List.not_mem_nil⟩
  | cons rid thread_ids ih =>
    obtain ⟨next_sp, hnext, h⟩ := bind_eq_ok.mp h
    obtain ⟨⟨b, stack₁⟩, hat, h⟩ := bind_eq_ok.mp h
    obtain ⟨hcovers₁, hrace, hrule⟩ := updateAtIndex_spec hat hS_n
    have hsame := hcovers₁.sameClocks
    obtain ⟨hcovers, hothers⟩ := ih h (hsame.length.symm ▸ htop)
    have hpending := pendingTransitionFor_eq_ok.mp hnext
    refine ⟨hcovers₁.trans hcovers, fun p hp => ?_⟩
    rcases List.mem_cons.mp hp with rfl | hp
    · refine ⟨⟨next_sp, hpending⟩, fun hraces => ?_⟩
      rw [hpending] at hraces
      exact (hrule (hrace.mpr hraces)).of_covers hcovers
    · exact ⟨(hothers p hp).1, fun hraces => (hothers p hp).2 ((hsame.racesAt_iff htop).mpr hraces)⟩

/-- The runner which moved is examined at the transitions below, down to the last race. -/
theorem updateForLatest_spec {next_sp : Transition}
    (h : updateForLatest config c next_sp p n stack = .ok stack') (hn : n < stack.length) :
    Covers stack stack' ∧ ∀ i, i < n → RacesAt config c.getTrace (some next_sp) stack i p →
      (∀ j, i < j → j < n → ¬ RacesAt config c.getTrace (some next_sp) stack j p) →
      BacktracksFor stack' i p := by
  induction n generalizing stack with
  | zero => exact ⟨Except.ok.inj h ▸ .refl _, fun i hi => absurd hi (Nat.not_lt_zero i)⟩
  | succ n ih =>
    rw [updateForLatest] at h
    cases ht : c.getTrace[n]? with
    | none =>
      rw [ht] at h
      cases h
    | some S_i =>
      rw [ht] at h
      obtain ⟨⟨stop, stack₁⟩, hat, h⟩ := bind_eq_ok.mp h
      obtain ⟨hcovers₁, hrace, hrule⟩ := updateAtIndex_spec hat ht
      have hsame := hcovers₁.sameClocks
      cases stop with
      | true =>
        obtain rfl := Except.ok.inj h
        refine ⟨hcovers₁, fun i hi _ hlast => ?_⟩
        rcases Nat.lt_succ_iff_lt_or_eq.mp hi with hlt | rfl
        · exact absurd (hrace.mp rfl) (hlast n hlt (Nat.lt_succ_self n))
        · exact hrule rfl
      | false =>
        obtain ⟨hcovers, hbelow⟩ := ih h (hsame.length.symm ▸ Nat.lt_of_succ_lt hn)
        refine ⟨hcovers₁.trans hcovers, fun i hi hraces hlast => ?_⟩
        rcases Nat.lt_succ_iff_lt_or_eq.mp hi with hlt | rfl
        · refine hbelow i hlt ((hsame.racesAt_iff (by omega)).mpr hraces) fun j hij hj hracesj => ?_
          exact hlast j hij (by omega) ((hsame.racesAt_iff (by omega)).mp hracesj)
        · exact absurd (hrace.mpr hraces) Bool.false_ne_true

/-- Where all ids below the number of runners have something pending, these are the runners. -/
theorem lt_card_of_pending {steps : Finmap fun _ : RunnerId => Transition}
    (h : ∀ q < steps.keys.card, ∃ u, steps.lookup q = some u) {u : Transition}
    (hu : steps.lookup p = some u) : p < steps.keys.card := by
  have hsub : Finset.range steps.keys.card ⊆ steps.keys := by
    intro q hq
    obtain ⟨v, hv⟩ := h q (Finset.mem_range.mp hq)
    exact Finmap.mem_keys.mpr (Finmap.lookup_isSome.mp (hv ▸ rfl))
  have hkeys := Finset.eq_of_subset_of_card_le hsub (by rw [Finset.card_range])
  have hp : p ∈ steps.keys := Finmap.mem_keys.mpr (Finmap.lookup_isSome.mp (hu ▸ rfl))
  rw [← hkeys] at hp
  exact Finset.mem_range.mp hp

/-- **The update** examines every runner at the last transition, and the one which executed it at
all transitions. -/
theorem update_spec (h : dynamicallyUpdateBacktrackSets config c stack = .ok stack')
    (hlength : stack.length = n + 2) (ht : c.getTrace[n]? = some t)
    (hlast : c.getTrace.length = n + 1)
    (hkeyed : ∀ q u, c.currentProgramModel.nextSteps.lookup q = some u → u.executor = q) :
    Covers stack stack' ∧
      (∀ p, p ≠ t.executor → RacesAt config c.getTrace (c.currentProgramModel.nextSteps.lookup p)
        stack n p → BacktracksFor stack' n p) ∧
      ∀ i, LastRaceAt config c.getTrace (c.currentProgramModel.nextSteps.lookup t.executor) stack i
        t.executor → BacktracksFor stack' i t.executor := by
  obtain ⟨S_n, hS_n, h⟩ := bind_eq_ok.mp h
  obtain ⟨stack₁, hothers, h⟩ := bind_eq_ok.mp h
  obtain ⟨next_sp, hnext, h⟩ := bind_eq_ok.mp h
  obtain rfl : t = S_n := by
    have hS_n' := lastTransition_eq_ok.mp hS_n
    rw [List.getLast?_eq_getElem?, hlast, Nat.add_sub_cancel, ht] at hS_n'
    exact Option.some.inj hS_n'
  have htop : stack.length - 2 = n := by omega
  rw [htop] at hothers h
  obtain ⟨hcovers₁, hrules⟩ := updateForOthers_spec hothers ht (by omega)
  have hlength₁ := hcovers₁.sameClocks.length
  obtain ⟨hcovers, hlatest⟩ := updateForLatest_spec h (by omega)
  have hpending := pendingTransitionFor_eq_ok.mp hnext
  refine ⟨hcovers₁.trans hcovers, fun p hp hraces => ?_, fun i hrace => ?_⟩
  · have hall : ∀ q < c.currentProgramModel.nextSteps.keys.card,
        ∃ u, c.currentProgramModel.nextSteps.lookup q = some u := by
      intro q hq
      by_cases hqt : q = t.executor
      · exact ⟨next_sp, hqt ▸ hpending⟩
      · exact (hrules q (List.mem_filter.mpr ⟨List.mem_range.mpr hq, decide_eq_true hqt⟩)).1
    have ⟨_, u, _, hu, _⟩ := hraces
    have hlt := lt_card_of_pending hall hu
    exact ((hrules p (List.mem_filter.mpr ⟨List.mem_range.mpr hlt, decide_eq_true hp⟩)).2
      hraces).of_covers hcovers
  · obtain ⟨hraces, hlater⟩ := hrace
    rw [hpending] at hraces hlater
    have hi : i < n := by
      obtain ⟨S_i, u, hS_i, hu, -, hcoenabled, -⟩ := hraces
      obtain rfl := Option.some.inj hu
      have hlt := (List.getElem?_eq_some_iff.mp hS_i).1
      by_contra hge
      obtain rfl : i = n := by omega
      -- two transitions of one runner are never co-enabled
      obtain rfl := Option.some.inj (ht.symm.trans hS_i)
      rw [areCoenabled, hkeyed _ _ hpending] at hcoenabled
      simp at hcoenabled
    refine hlatest i hi ((hcovers₁.sameClocks.racesAt_iff (by omega)).mpr hraces)
      fun j hij hj hracesj => ?_
    exact hlater j hij ((hcovers₁.sameClocks.racesAt_iff (by omega)).mp hracesj)

/-! ### Clocks -/

/-- The clocks at depth `k` are no later than the trace there, and those of a runner precede its
last transition, as far as other runners are concerned. -/
structure ClocksBelow (clocks : ClockVector × Vector RunnerItem maxTotalThreadsInProgram) (k : ℕ) :
    Prop where
  entry : ∀ q, clocks.1.valueFor q ≤ k
  runner : ∀ (p : RunnerId) (runner : RunnerItem), clocks.2[p]? = some runner →
    ∀ q, q ≠ p → runner.cv.valueFor q ≤ k - 1

/-- The items have clocks which their depths allow. -/
def ClocksBounded (stack : List StackItem) : Prop :=
  ∀ (k : ℕ) (item : StackItem), stack[k]? = some item → ClocksBelow item.clocks k

theorem ClocksBounded.of_sameClocks (h : ClocksBounded stack)
    (hsame : ∀ (k : ℕ) (item' : StackItem), stack'[k]? = some item' →
      ∃ item, stack[k]? = some item ∧ item'.clocks = item.clocks) : ClocksBounded stack' := by
  intro k item' hitem'
  obtain ⟨item, hitem, heq⟩ := hsame k item' hitem'
  exact heq ▸ h k item hitem

/-- The clock vector of the next transition joins clocks of the trace before it. -/
theorem ClocksBounded.valueFor_le {cv : ClockVector} (h : ClocksBounded stack)
    (hcv : accumulateMaxClockVectorAgainst config t stack = .ok cv) (q : RunnerId) :
    cv.valueFor q ≤ stack.length - 1 := by
  obtain ⟨hmem, -⟩ := foldlM_joinClockVector_isGreatest hcv q
  rcases hmem with hzero | ⟨item, hitem, -, hvalue⟩
  · rw [hzero, ClockVector.valueFor_empty]
    exact Nat.zero_le _
  · obtain ⟨k, hk⟩ := List.mem_iff_getElem?.mp hitem
    have hlt := (List.getElem?_eq_some_iff.mp hk).1
    have hle : item.cv.valueFor q ≤ k := (h k item hk).entry q
    omega

theorem ClocksBounded.expand (h : ClocksBounded stack)
    (hrun : (continueDporByExpandingTraceWith source config p stack).run c = (.ok stack', c')) :
    ClocksBounded stack' := by
  obtain ⟨-, grown, hgrow, hupdate⟩ := continueDporByExpandingTraceWith_eq_ok hrun
  have hgrown : ClocksBounded grown := by
    obtain ⟨init, s_n, t_n, cv, clocks, enabled, asleep, rfl, -, -, hcv, hclocks, -, -, rfl⟩ :=
      growStackAfterRunning_eq_ok hgrow
    have hlength : (init ++ [s_n]).length = init.length + 1 := by simp
    -- the clock of the new transition is joined from those below, before its own entry is set
    have hbelow := h.valueFor_le hcv
    rw [hlength, Nat.add_sub_cancel] at hbelow
    have hs_n : ClocksBelow s_n.clocks init.length := h init.length s_n (by simp)
    intro k item hitem
    rcases Nat.lt_trichotomy k (init.length + 1) with hk | rfl | hk
    · rcases Nat.lt_succ_iff_lt_or_eq.mp hk with hk | rfl
      · rw [List.getElem?_append_left hk] at hitem
        exact h k item ((List.getElem?_append_left hk).trans hitem)
      · rw [List.getElem?_append_right le_rfl, Nat.sub_self] at hitem
        obtain rfl := Option.some.inj hitem
        exact hs_n
    · rw [List.getElem?_append_right (Nat.le_add_right _ 1), Nat.add_sub_cancel_left] at hitem
      obtain rfl := Option.some.inj hitem
      obtain ⟨hown, hothers⟩ := withClockVector_eq_ok hclocks
      have hnew : ∀ q, q ≠ t_n.executor →
          (cv.set t_n.executor (init ++ [s_n]).length).valueFor q ≤ init.length := by
        intro q hq
        rw [ClockVector.valueFor_set, if_neg hq]
        exact hbelow q
      refine ⟨fun q => ?_, fun r runner hrunner q hq => ?_⟩
      · show (cv.set t_n.executor (init ++ [s_n]).length).valueFor q ≤ init.length + 1
        by_cases hq : q = t_n.executor
        · rw [ClockVector.valueFor_set, if_pos hq, hlength]
        · exact (hnew q hq).trans (Nat.le_succ _)
      · have hrunner' : clocks[r]? = some runner := hrunner
        rw [Nat.add_sub_cancel]
        by_cases hr : t_n.executor = r
        · subst hr
          rw [hown runner hrunner']
          exact hnew q hq
        · rw [hothers r hr] at hrunner'
          exact (hs_n.runner r runner hrunner' q hq).trans (Nat.sub_le _ _)
    · rw [List.getElem?_eq_none (by rw [List.length_append]; exact hk)] at hitem
      cases hitem
  -- the update of the backtrack sets changes no clock
  refine hgrown.of_sameClocks fun k item' hitem' => ?_
  obtain ⟨item, hitem, hsame⟩ := exists_of_update hupdate hitem'
  exact ⟨item, hitem, by rw [eq_of_withoutBacktrackSet hsame]; rfl⟩

section Clocks

variable {P : List StackItem → Prop}

/-- What is true of the clocks of the stack is true of those of the stack which an expansion leaves
behind. -/
theorem clocks_of_expands
    (htop : ∀ {stack init : List StackItem} {back back' : StackItem}, P stack →
      init ++ [back] <+: stack → back'.clocks = back.clocks → P (init ++ [back']))
    (hexpand : ∀ {stack stack' : List StackItem} {c c' : Coordinator} {p : RunnerId}, P stack →
      (continueDporByExpandingTraceWith source config p stack).run c = (.ok stack', c') → P stack')
    (h : P s.stack) (hexpands : s.Expands source config stack c') : P stack := by
  cases hexpands with
  | explore init back _ _ _ hrun => exact hexpand h hrun
  | follow init back rid _ hstack _ hrun =>
    rw [hstack] at h
    have hmarked : P (init ++ [back.markSearched rid]) := htop h List.prefix_rfl rfl
    exact hexpand hmarked hrun

/-- What is true of the clocks of the first item, and stays true when items are popped and the trace
is expanded, is true of every stack of the search. -/
theorem clocks_of_reachable
    (hfirst : ∀ enabled, P [{ cv := .empty, enabledRunners := enabled }]) (hnil : P [])
    (htop : ∀ {stack init : List StackItem} {back back' : StackItem}, P stack →
      init ++ [back] <+: stack → back'.clocks = back.clocks → P (init ++ [back']))
    (hexpand : ∀ {stack stack' : List StackItem} {c c' : Coordinator} {p : RunnerId}, P stack →
      (continueDporByExpandingTraceWith source config p stack).run c = (.ok stack', c') → P stack')
    (h : Search.Reachable source config callbacks c s) : P s.stack := by
  obtain ⟨s₀, hstart, hrun⟩ := h
  induction hrun with
  | refl =>
    obtain ⟨enabled, -, hs₀⟩ := bind_eq_ok.mp hstart
    obtain rfl := Except.ok.inj hs₀
    exact hfirst _
  | tail _ hstep ih =>
    cases hstep.move with
    | explore init back hphase hstack henabled _ hrun =>
      exact clocks_of_expands htop hexpand ih (.explore init back hphase.1 hstack henabled hrun)
    | finish _ _ hstack _ =>
      rw [hstack]
      exact hnil
    | goBack init back _ hpop _ hstack =>
      rw [hstack]
      refine htop ih (hpop ▸ popExplored_prefix _) ?_
      unfold afterReturn
      split_ifs
      · rfl
      · rfl
    | follow init back rid hphase hstack hrid _ hrun =>
      exact clocks_of_expands htop hexpand ih (.follow init back rid hphase.1 hstack hrid hrun)

end Clocks

/-- An item of a stack whose top has been replaced. -/
theorem getElem?_of_replaced {init : List StackItem} {back back' : StackItem} {k : ℕ}
    (hpre : init ++ [back] <+: stack) (hitem : (init ++ [back'])[k]? = some item') :
    (k < init.length ∧ stack[k]? = some item') ∨
      (k = init.length ∧ item' = back' ∧ stack[k]? = some back) := by
  rcases Nat.lt_trichotomy k init.length with hk | rfl | hk
  · rw [List.getElem?_append_left hk] at hitem
    exact .inl ⟨hk, getElem?_of_prefix hpre ((List.getElem?_append_left hk).trans hitem)⟩
  · rw [List.getElem?_concat_length] at hitem
    exact .inr ⟨rfl, (Option.some.inj hitem).symm,
      getElem?_of_prefix hpre List.getElem?_concat_length⟩
  · rw [List.getElem?_eq_none (by rw [List.length_append]; exact hk)] at hitem
    cases hitem

theorem ClocksBounded.replace {init : List StackItem} {back back' : StackItem}
    (h : ClocksBounded stack) (hpre : init ++ [back] <+: stack) (hclocks : back'.clocks = back.clocks) :
    ClocksBounded (init ++ [back']) := by
  refine h.of_sameClocks fun k item' hitem' => ?_
  rcases getElem?_of_replaced hpre hitem' with ⟨-, hitem⟩ | ⟨-, rfl, hitem⟩
  · exact ⟨item', hitem, rfl⟩
  · exact ⟨back, hitem, hclocks⟩

theorem clocksBounded_of_reachable (h : Search.Reachable source config callbacks c s) :
    ClocksBounded s.stack := by
  refine clocks_of_reachable (fun enabled k item hitem => ?_) (fun k item hitem => nomatch hitem)
    ClocksBounded.replace ClocksBounded.expand h
  obtain rfl : k = 0 := by
    have hlt : k < 1 := (List.getElem?_eq_some_iff.mp hitem).1
    omega
  obtain rfl := Option.some.inj hitem
  refine ⟨fun q => le_rfl, fun p runner hrunner q _ => ?_⟩
  have hrunner' : (Vector.replicate maxTotalThreadsInProgram ({} : RunnerItem))[p]? = some runner :=
    hrunner
  obtain ⟨hlt, hget⟩ := Vector.getElem?_eq_some_iff.mp hrunner'
  rw [← hget, Vector.getElem_replicate]
  exact le_rfl

/-! ### A step of another runner -/

/-- The runner which has executed `t` at `n` is not `p`: the clock of `p` is what it was, and so are
the items below. -/
structure Advances (stack stack' : List StackItem) (n : ℕ) (t : Transition) (p : RunnerId) : Prop where
  other : t.executor ≠ p
  length : stack.length = n + 1
  length' : stack'.length = n + 2
  out : ∀ i < n, stack'[i]?.map (·.outTransition) = stack[i]?.map (·.outTransition)
  last : getTransition stack' n = .ok t
  clock : stack'.getLast?.map (·.perRunnerClocks[p]?) = stack.getLast?.map (·.perRunnerClocks[p]?)
  bounded : ClocksBounded stack

namespace Advances

theorem happensBeforeThread (h : Advances stack stack' n t p) (hi : i < n) :
    happensBeforeThread stack' i p = happensBeforeThread stack i p :=
  happensBeforeThread_congr (h.out i hi) h.clock

/-- The new transition does not happen before what `p` has executed earlier. -/
theorem happensBeforeThread_last (h : Advances stack stack' n t p) (hi : i < n) {b : Bool}
    (hb : McMini.happensBeforeThread stack i p = .ok b) :
    McMini.happensBeforeThread stack' n p = .ok false := by
  rw [happensBeforeThread_eq_bind] at hb ⊢
  obtain ⟨S_i, -, hb⟩ := bind_eq_ok.mp hb
  obtain ⟨cv, hcv, -⟩ := bind_eq_ok.mp hb
  refine bind_eq_ok.mpr ⟨t, h.last, bind_eq_ok.mpr ⟨cv, ?_, ?_⟩⟩
  · rw [h.clock]
    exact hcv
  · have htop : ∃ top, stack.getLast? = some top := by
      have hne : stack ≠ [] := List.ne_nil_of_length_pos (by rw [h.length]; omega)
      exact ⟨_, List.getLast?_eq_some_getLast hne⟩
    obtain ⟨top, htop⟩ := htop
    have hitem : stack[n]? = some top := by
      rw [← htop, List.getLast?_eq_getElem?, h.length, Nat.add_sub_cancel]
    rw [htop] at hcv
    cases hrunner : top.perRunnerClocks[p]? with
    | none =>
      rw [Option.map_some, Option.elim_some, hrunner] at hcv
      cases hcv
    | some runner =>
      rw [Option.map_some, Option.elim_some, hrunner] at hcv
      obtain rfl := Except.ok.inj hcv
      have hle := (h.bounded n top hitem).runner p runner hrunner t.executor h.other
      have hnot : ¬ n ≤ runner.cv.valueFor t.executor := by omega
      rw [decide_eq_false hnot]
      rfl

theorem threadsRaceAfter (h : Advances stack stack' n t p) (hi : i < n) {b : Bool}
    (hb : McMini.happensBeforeThread stack i p = .ok b) (q : RunnerId) :
    threadsRaceAfter stack' i q p = threadsRaceAfter stack i q p := by
  have hrange : List.range' (i + 1) (n + 2 - 1 - (i + 1)) =
      List.range' (i + 1) (n + 1 - 1 - (i + 1)) ++ [n] := by
    have hlen : n + 2 - 1 - (i + 1) = n + 1 - 1 - (i + 1) + 1 := by omega
    have hend : i + 1 + 1 * (n + 1 - 1 - (i + 1)) = n := by omega
    rw [hlen, List.range'_concat, hend]
  rw [McMini.threadsRaceAfter, McMini.threadsRaceAfter, h.length, h.length', hrange, anyM_concat]
  · refine anyM_congr fun j hj => ?_
    have hlt : j < n := by
      have hmem := List.mem_range'_1.mp hj
      omega
    rw [getTransition_eq_elim, getTransition_eq_elim, h.out j hlt, h.happensBeforeThread hlt]
  · rw [h.last]
    show (if q == t.executor then McMini.happensBeforeThread stack' n p else .ok false) = .ok false
    split_ifs
    · exact h.happensBeforeThread_last hi hb
    · rfl

theorem racesAt_iff (h : Advances stack stack' n t p) (hi : i < n) (htr : tr.length = n) :
    RacesAt config (tr ++ [t]) next stack' i p ↔ RacesAt config tr next stack i p := by
  rw [RacesAt, RacesAt, h.happensBeforeThread hi, List.getElem?_append_left (htr.symm ▸ hi)]

/-- Where the last race of a runner which does not move lies behind, it stays. -/
theorem lastRaceAt (h : Advances stack stack' n t p) (hi : i < n) (htr : tr.length = n)
    (hlast : LastRaceAt config (tr ++ [t]) next stack' i p) : LastRaceAt config tr next stack i p := by
  refine ⟨(h.racesAt_iff hi htr).mp hlast.1, fun j hij hj => hlast.2 j hij ?_⟩
  have ⟨_, _, hS_j, _⟩ := hj
  have hlt := (List.getElem?_eq_some_iff.mp hS_j).1
  exact (h.racesAt_iff (htr ▸ hlt) htr).mpr hj

/-- The rule for it stays fulfilled. -/
theorem backtracksFor (h : Advances stack stack' n t p) (hi : i < n)
    (hrace : RacesAt config tr next stack i p) (hrule : BacktracksFor stack i p)
    (hitems : ∀ item', stack'[i]? = some item' → ∃ item, stack[i]? = some item ∧
      item'.enabledRunners = item.enabledRunners ∧ item.covered ⊆ item'.covered) :
    BacktracksFor stack' i p := by
  obtain ⟨-, -, -, -, -, -, hb⟩ := hrace
  refine hrule.mono hitems fun q => ?_
  rw [GetsAhead, GetsAhead, h.threadsRaceAfter hi hb]

end Advances

/-! ### What the search keeps -/

/-- At depth `k` the runner has been known since the transition at `i` was executed, or has been
executed itself. -/
def KnownSince (tr : List Transition) (hs : List ItemHistory) (k i : ℕ) (p : RunnerId) : Prop :=
  (∃ hist u, hs[i + 1]? = some hist ∧ hist.model.nextSteps.lookup p = some u) ∨
    ∃ t ∈ tr.take k, t.executor = p

/-- At every depth the last races of such runners have their backtrack points. -/
def RuleKept (config : Configuration) (c : Coordinator) (stack : List StackItem)
    (hs : List ItemHistory) : Prop :=
  ∀ k i p, k < stack.length → i < k → KnownSince c.getTrace hs k i p →
    LastRaceAt config (c.getTrace.take k) (c.currentProgramModel.pendingAtDepth k p)
      (stack.take (k + 1)) i p →
    BacktracksFor (stack.take (k + 1)) i p

section Keep

variable {r₀ : ℕ} {runners : List ℕ} {init : List StackItem} {back new : StackItem} {k : ℕ}

/-- A runner which has been known is known to the model. -/
theorem KnownSince.lt (h : KnownSince c.getTrace hs k i p)
    (hstack : StackInvariant r₀ runners c stack hs) : p < c.currentProgramModel.runnerCount := by
  rcases h with ⟨hist, u, hhist, hu⟩ | ⟨t, ht, rfl⟩
  · have hlt : i + 1 < stack.length := by
      rw [← hstack.histories]
      exact (List.getElem?_eq_some_iff.mp hhist).1
    have hitem := hstack.items (i + 1) _ hist (List.getElem?_eq_getElem hlt) hhist
    exact (hitem.layered.known p u hu).trans_le hitem.keeps.count
  · obtain ⟨j, hj⟩ := List.mem_iff_getElem?.mp (List.mem_of_mem_take ht)
    exact (hstack.layered.pending_lt (Program.pendingAtDepth_executor hj)).2

/-- The histories below a depth know the same runners as before. -/
theorem KnownSince.of_histories {hs' : List ItemHistory} {tr' : List Transition}
    (h : KnownSince tr' hs' k i p) (htr : tr'.take k = tr.take k)
    (hhist : ∀ hist', hs'[i + 1]? = some hist' → ∃ hist, hs[i + 1]? = some hist ∧
      hist'.model = hist.model) : KnownSince tr hs k i p := by
  refine h.imp ?_ ?_
  · rintro ⟨hist', u, hhist', hu⟩
    obtain ⟨hist, hold, hmodel⟩ := hhist hist' hhist'
    exact ⟨hist, u, hold, hmodel ▸ hu⟩
  · rintro ⟨t, ht, hexec⟩
    exact ⟨t, htr ▸ ht, hexec⟩

/-- The rule stays fulfilled at a depth, when nothing it looks at there changes. -/
theorem rule_at_depth (hkept : RuleKept config c stack hs) (hk : k < stack.length) (hi : i < k)
    (hknown : KnownSince c.getTrace hs k i p)
    (htr : c'.getTrace.take k = c.getTrace.take k)
    (hpending : c'.currentProgramModel.pendingAtDepth k p = c.currentProgramModel.pendingAtDepth k p)
    (hsame : SameClocks (stack.take (k + 1)) (stack'.take (k + 1)))
    (hitems : ∀ item', stack'[i]? = some item' → ∃ item, stack[i]? = some item ∧
      item'.enabledRunners = item.enabledRunners ∧ item.covered ⊆ item'.covered)
    (hrace : LastRaceAt config (c'.getTrace.take k) (c'.currentProgramModel.pendingAtDepth k p)
      (stack'.take (k + 1)) i p) :
    BacktracksFor (stack'.take (k + 1)) i p := by
  have hlength : (stack.take (k + 1)).length = k + 1 := by
    rw [List.length_take]
    omega
  rw [htr, hpending] at hrace
  have htake : (c.getTrace.take k).length < (stack.take (k + 1)).length := by
    rw [hlength, List.length_take]
    omega
  have hold := hkept k i p hk hi hknown ((hsame.lastRaceAt_iff htake).mp hrace)
  refine hold.mono (fun item' hitem' => ?_) fun q => hsame.getsAhead_iff
  rw [List.getElem?_take_of_lt (by omega)] at hitem' ⊢
  exact hitems item' hitem'

/-- **Going back** keeps it. -/
theorem RuleKept.goBack (h : RuleKept config c stack hs)
    (hstack : StackInvariant r₀ runners c stack hs) (hpre : init ++ [back] <+: stack)
    (hkeeps : c.currentProgramModel.Keeps init.length c'.currentProgramModel)
    (hcount : c'.currentProgramModel.runnerCount = c.currentProgramModel.runnerCount)
    (htrace : c'.getTrace = c.getTrace.take init.length)
    (hstack' : StackInvariant r₀ (runners.take (init.length + 1)) c' (init ++ [back])
      (backHistories stack hs (init.length + 1))) :
    RuleKept config c' (init ++ [back]) (backHistories stack hs (init.length + 1)) := by
  have hle := hpre.length_le
  rw [List.length_append, List.length_singleton] at hle
  have hlt : init.length < hs.length := by
    rw [hstack.histories]
    exact hle
  intro k i p hk hi hknown hrace
  have hk' : k ≤ init.length := by
    rw [List.length_append, List.length_singleton] at hk
    omega
  have htake : (init ++ [back]).take (k + 1) = stack.take (k + 1) := by
    obtain ⟨rest, rfl⟩ := hpre
    have hle' : k + 1 ≤ (init ++ [back]).length := hk
    exact (List.take_append_of_le_length hle').symm
  have htr : c'.getTrace.take k = c.getTrace.take k := by
    rw [htrace, List.take_take, min_eq_left hk']
  have hp := hknown.lt hstack'
  rw [hcount] at hp
  have hknown' : KnownSince c.getTrace hs k i p := by
    refine hknown.of_histories htr fun hist' hhist' => ?_
    rcases (getElem?_backHistories hlt).mp hhist' with ⟨-, hhist⟩ | ⟨heq, old, hhist, rfl⟩
    · exact ⟨hist', hhist, rfl⟩
    · exact ⟨old, heq ▸ hhist, rfl⟩
  refine rule_at_depth h (by omega) hi hknown' htr (hkeeps.pending k hk' p hp) ?_ ?_ hrace
  · rw [htake]
    exact ⟨rfl, fun _ _ => rfl, rfl⟩
  · intro item' hitem'
    exact ⟨item', getElem?_of_prefix hpre hitem', rfl, Finset.Subset.refl _⟩

/-- What an expansion of the trace does to the items. -/
theorem exists_of_covers_leaving
    (hcovers : Covers (init ++ [back.leaving t, new]) stack') {item' : StackItem}
    (hi : i < init.length + 1) (hitem' : stack'[i]? = some item') :
    ∃ item, (init ++ [back])[i]? = some item ∧ item'.enabledRunners = item.enabledRunners ∧
      item.covered ⊆ item'.covered ∧ item'.perRunnerClocks = item.perRunnerClocks ∧
      (i < init.length → item'.outTransition = item.outTransition) := by
  obtain ⟨item, hitem, hsame, hsub⟩ := hcovers.exists hitem'
  have hcovered := covered_subset hsame hsub
  have heq := eq_of_withoutBacktrackSet hsame
  rcases Nat.lt_succ_iff_lt_or_eq.mp hi with hlt | rfl
  · rw [List.getElem?_append_left hlt] at hitem
    refine ⟨item, (List.getElem?_append_left hlt).trans hitem, enabledRunners_eq hsame, hcovered, ?_,
      fun _ => ?_⟩
    · rw [heq]
    · rw [heq]
  · rw [List.getElem?_append_right le_rfl, Nat.sub_self] at hitem
    obtain rfl := Option.some.inj hitem
    refine ⟨back, List.getElem?_concat_length, (enabledRunners_eq hsame).trans rfl, ?_, ?_,
      fun hlt => absurd hlt (Nat.lt_irrefl _)⟩
    · refine Finset.Subset.trans (fun q hq => ?_) hcovered
      show q ∈ back.backtrackSet.erase t.executor ∪ insert t.executor back.doneSet ∪
        insert t.executor back.sleepSet
      have hq' : q ∈ back.backtrackSet ∪ back.doneSet ∪ back.sleepSet := hq
      by_cases hqt : q = t.executor
      · exact Finset.mem_union_right _ (hqt ▸ Finset.mem_insert_self _ _)
      · simpa [hqt] using hq'
    · rw [heq]
      rfl

/-- **Expanding the trace** keeps it. -/
theorem RuleKept.expand (h : RuleKept config c (init ++ [back]) hs)
    (hstack : StackInvariant r₀ runners c (init ++ [back]) hs)
    (hexpansion : Expansion config r₀ runners c init back t new stack' c')
    (hdone : t.executor ∉ back.doneSet) (hbounded : ClocksBounded (init ++ [back]))
    (hclocks : ∀ p, t.executor ≠ p →
      stack'.getLast?.map (·.perRunnerClocks[p]?) = some (back.perRunnerClocks[p]?)) :
    RuleKept config c' stack' (expandHistories hs t c'.currentProgramModel) := by
  have hexpanded := hstack.expand hexpansion hdone
  have hn : c.getTrace.length = init.length := by
    have hlength := hstack.length
    rw [List.length_append, List.length_singleton] at hlength
    omega
  have hlast : c'.getTrace.length = init.length + 1 := by
    rw [hexpansion.trace, List.length_append, hn, List.length_singleton]
  have ht : c'.getTrace[init.length]? = some t := by
    rw [hexpansion.trace, ← hn, List.getElem?_concat_length]
  have hgrown : (init ++ [back.leaving t, new]).length = init.length + 2 := by simp
  obtain ⟨hcovers, hothers, hlatest⟩ :=
    update_spec hexpansion.updated hgrown ht hlast hexpansion.layered.keyed
  have hsame := hcovers.sameClocks
  have hlength' : stack'.length = init.length + 2 := hsame.length.trans hgrown
  -- an item of the old stack and what it has become
  have hitems : ∀ {j : ℕ}, j < init.length + 1 → ∃ item item', (init ++ [back])[j]? = some item ∧
      stack'[j]? = some item' ∧ item'.perRunnerClocks = item.perRunnerClocks ∧
      (j < init.length → item'.outTransition = item.outTransition) := by
    intro j hj
    have hlt : j < stack'.length := by omega
    have hitem' := List.getElem?_eq_getElem hlt
    obtain ⟨item, hitem, -, -, hrunner, hout⟩ := exists_of_covers_leaving hcovers hj hitem'
    exact ⟨item, _, hitem, hitem', hrunner, hout⟩
  have hout : ∀ j < init.length,
      stack'[j]?.map (·.outTransition) = (init ++ [back])[j]?.map (·.outTransition) := by
    intro j hj
    obtain ⟨item, item', hitem, hitem', -, hout⟩ := hitems (Nat.lt_succ_of_lt hj)
    rw [hitem, hitem', Option.map_some, Option.map_some, hout hj]
  have hcovered : ∀ {j : ℕ}, j < init.length + 1 → ∀ item', stack'[j]? = some item' →
      ∃ item, (init ++ [back])[j]? = some item ∧ item'.enabledRunners = item.enabledRunners ∧
        item.covered ⊆ item'.covered := by
    intro j hj item' hitem'
    obtain ⟨item, hitem, henabled, hsub, -⟩ := exists_of_covers_leaving hcovers hj hitem'
    exact ⟨item, hitem, henabled, hsub⟩
  have hhistories : ∀ {i : ℕ}, i + 1 ≤ init.length → ∀ hist',
      (expandHistories hs t c'.currentProgramModel)[i + 1]? = some hist' →
      ∃ hist, hs[i + 1]? = some hist ∧ hist'.model = hist.model := by
    intro i hle hist' hhist'
    have hcount : hs.length = init.length + 1 := by
      rw [hstack.histories, List.length_append, List.length_singleton]
    rcases (getElem?_expandHistories hcount).mp hhist' with ⟨-, hold⟩ | ⟨heq, old, hold, rfl⟩ | ⟨heq, -⟩
    · exact ⟨hist', hold, rfl⟩
    · exact ⟨old, heq ▸ hold, rfl⟩
    · omega
  intro k i p hk hi hknown hrace
  rcases Nat.lt_or_ge init.length k with hk' | hk'
  · obtain rfl : k = init.length + 1 := by omega
    have htake : stack'.take (init.length + 1 + 1) = stack' := List.take_of_length_le hlength'.le
    have htakeTrace : c'.getTrace.take (init.length + 1) = c'.getTrace :=
      List.take_of_length_le hlast.le
    have hpending : c'.currentProgramModel.pendingAtDepth (init.length + 1) p =
        c'.currentProgramModel.nextSteps.lookup p := by
      rw [← hlast]
      exact Program.pendingAtDepth_length
    rw [htake, htakeTrace, hpending] at hrace
    rw [htake]
    by_cases hp : p = t.executor
    · subst hp
      exact hlatest i ((hsame.lastRaceAt_iff (by omega)).mp hrace)
    · rcases Nat.lt_succ_iff_lt_or_eq.mp hi with hi' | rfl
      · -- another runner, and a transition further down
        have hold : KnownSince c.getTrace hs init.length i p := by
          rcases hknown with ⟨hist', u, hhist', hu⟩ | ⟨u, hu, rfl⟩
          · obtain ⟨hist, hhist, hmodel⟩ := hhistories hi' hist' hhist'
            exact .inl ⟨hist, u, hhist, hmodel ▸ hu⟩
          · rw [htakeTrace, hexpansion.trace] at hu
            rcases List.mem_append.mp hu with hu | hu
            · rw [← hn]
              exact .inr ⟨u, by rwa [List.take_length], rfl⟩
            · exact absurd (congrArg Transition.executor (List.mem_singleton.mp hu)) hp
        have hlt := hold.lt hstack
        have hsteps : c'.currentProgramModel.nextSteps.lookup p =
            c.currentProgramModel.pendingAtDepth init.length p := by
          rw [← hpending, Program.pendingAtDepth_succ ht (Ne.symm hp), ← hn]
          exact hexpansion.keeps.pending _ le_rfl p hlt
        have hadvances : Advances (init ++ [back]) stack' init.length t p := by
          obtain ⟨item, item', -, hitem', -, -⟩ := hitems (Nat.lt_succ_self init.length)
          refine ⟨Ne.symm hp, by simp, hlength', hout, ?_, ?_, hbounded⟩
          · have hhist : ∃ hist, (expandHistories hs t c'.currentProgramModel)[init.length]? =
                some hist := by
              refine ⟨_, List.getElem?_eq_getElem ?_⟩
              rw [hexpanded.histories]
              omega
            obtain ⟨hist, hhist⟩ := hhist
            rw [getTransition_eq_elim, hitem', Option.map_some, Option.elim_some,
              (hexpanded.items _ item' hist hitem' hhist).out t ht]
            rfl
          · rw [hclocks p (Ne.symm hp), List.getLast?_concat]
            rfl
        rw [hsteps, hexpansion.trace] at hrace
        have hlastRace := hadvances.lastRaceAt hi' hn hrace
        have hdepth : (init ++ [back]).take (init.length + 1) = init ++ [back] :=
          List.take_of_length_le (by simp)
        have htakeOld : c.getTrace.take init.length = c.getTrace := List.take_of_length_le hn.le
        have hrule := h init.length i p (by simp) hi' hold
        rw [hdepth, htakeOld] at hrule
        exact hadvances.backtracksFor hi' hlastRace.1 (hrule hlastRace)
          (hcovered (Nat.lt_succ_of_lt hi'))
      · exact hothers p hp ((hsame.racesAt_iff (by omega)).mp hrace.1)
  · -- a depth which was there before
    have htr : c'.getTrace.take k = c.getTrace.take k := by
      rw [hexpansion.trace, List.take_append_of_le_length (hn ▸ hk')]
    have hold := hknown.of_histories htr (hhistories (by omega))
    refine rule_at_depth h (by simp; omega) hi hold htr
      (hexpansion.keeps.pending k (hn ▸ hk') p (hold.lt hstack)) ?_ (hcovered (by omega)) hrace
    have hlen : ((init ++ [back]).take (k + 1)).length = k + 1 := by
      rw [List.length_take, List.length_append, List.length_singleton]
      omega
    have hlen' : (stack'.take (k + 1)).length = k + 1 := by
      rw [List.length_take]
      omega
    refine ⟨hlen'.trans hlen.symm, fun j hj => ?_, ?_⟩
    · rw [List.getElem?_take_of_lt (by omega), List.getElem?_take_of_lt (by omega)]
      exact hout j (by omega)
    · obtain ⟨item, item', hitem, hitem', hrunner, -⟩ := hitems (Nat.lt_succ_of_le hk')
      rw [List.getLast?_eq_getElem?, List.getLast?_eq_getElem?, hlen, hlen', Nat.add_sub_cancel,
        List.getElem?_take_of_lt (Nat.lt_succ_self k), List.getElem?_take_of_lt (Nat.lt_succ_self k),
        hitem, hitem', Option.map_some, Option.map_some, hrunner]

end Keep

/-! ### Runs -/

/-- The clocks of the runners which are not executed are taken over. -/
theorem clock_of_expands {init : List StackItem} {back : StackItem}
    (hexpands : s.Expands source config stack c') (hstack : s.stack = init ++ [back])
    (ht : c'.getTrace.getLast? = some t) (hp : t.executor ≠ p) :
    stack.getLast?.map (·.perRunnerClocks[p]?) = some (back.perRunnerClocks[p]?) := by
  have hgrow : ∀ {rid : RunnerId} {back₀ : StackItem},
      back₀.perRunnerClocks = back.perRunnerClocks →
      (continueDporByExpandingTraceWith source config rid (init ++ [back₀])).run s.coordinator =
        (.ok stack, c') →
      stack.getLast?.map (·.perRunnerClocks[p]?) = some (back.perRunnerClocks[p]?) := by
    intro rid back₀ hsame hrun
    obtain ⟨-, grown, hgrow, hupdate⟩ := continueDporByExpandingTraceWith_eq_ok hrun
    obtain ⟨init', s_n, t_n, cv, clocks, enabled, asleep, heq, ht_n, -, -, hclocks, -, -, rfl⟩ :=
      growStackAfterRunning_eq_ok hgrow
    obtain ⟨rfl, hs_n⟩ := List.append_inj' heq rfl
    obtain rfl := List.singleton_inj.mp hs_n
    obtain rfl := Option.some.inj (ht.symm.trans ht_n)
    have hmap := congrArg (fun l => l.getLast?.map (·.perRunnerClocks[p]?))
      (dynamicallyUpdateBacktrackSets_map hupdate)
    simp only [List.getLast?_map, Option.map_map] at hmap
    have hview : ((·.perRunnerClocks[p]?) ∘ (·.withoutBacktrackSet) :
        StackItem → Option RunnerItem) = (·.perRunnerClocks[p]?) := rfl
    rw [hview] at hmap
    rw [hmap, List.getLast?_append_of_ne_nil _ (List.cons_ne_nil _ _)]
    show some (clocks[p]?) = _
    rw [(withClockVector_eq_ok hclocks).2 p hp, hsame]
  cases hexpands with
  | explore init' back' _ heq _ hrun =>
    rw [hstack] at hrun
    exact hgrow rfl hrun
  | follow init' back' rid _ heq _ hrun =>
    rw [hstack] at heq
    obtain ⟨rfl, hback⟩ := List.append_inj' heq rfl
    obtain rfl := List.singleton_inj.mp hback
    have hsame : (back.markSearched rid).perRunnerClocks = back.perRunnerClocks := rfl
    exact hgrow hsame hrun

/-- One call which expands the trace keeps the rule fulfilled. -/
theorem RuleKept.of_expands (hc : c.Initial) (h : Traced source config callbacks c s hs)
    (hkept : RuleKept config s.coordinator s.stack hs)
    (hexpands : s.Expands source config stack c') (ht : c'.getTrace.getLast? = some t) :
    RuleKept config c' stack (expandHistories hs t c'.currentProgramModel) := by
  obtain ⟨runners, init, back, t', new, heq, hstack, -, hdone, hexpansion⟩ :=
    (searchInvariant_of_traced hc h hexpands.stack_ne_nil).expands hexpands
  have ht' := ht
  rw [hexpansion.trace, List.getLast?_concat] at ht'
  obtain rfl := Option.some.inj ht'
  have hbounded := clocksBounded_of_reachable h.reachable
  rw [heq] at hkept hstack hbounded
  exact hkept.expand hstack hexpansion hdone hbounded fun p hp =>
    clock_of_expands hexpands heq ht hp

theorem ruleKept_of_traced (hc : c.Initial) (h : Traced source config callbacks c s hs) :
    RuleKept config s.coordinator s.stack hs := by
  induction h with
  | start hstart =>
    obtain ⟨enabled, -, hs⟩ := bind_eq_ok.mp hstart
    obtain rfl := Except.ok.inj hs
    intro k i p hk hi
    have hk' : k < 1 := hk
    omega
  | expand h hstep hexpands ht ih => exact ih.of_expands hc h hexpands ht
  | @back s s' hs h hstep hphase ih =>
    have hinvariant := searchInvariant_of_traced hc h hstep.stack_ne_nil
    have hkept := rootKept_of_reachable h.reachable
    obtain ⟨runners, hstack⟩ := hinvariant.stack
    cases hstep.move with
    | explore _ _ hphase' _ _ _ _ => exact absurd (hphase.symm.trans hphase'.2) (by decide)
    | finish hphase' _ _ _ => exact absurd (hphase.symm.trans hphase'.2) (by decide)
    | follow _ _ _ hphase' _ _ _ _ => exact absurd (hphase.symm.trans hphase'.2) (by decide)
    | goBack init back _ hpop hrun hs' =>
      have hinit := hkept.searched.ne_nil hpop
      have hafter : afterReturn init.length back = back :=
        if_neg fun hzero => hinit (List.length_eq_zero_iff.mp hzero)
      rw [hafter] at hs'
      have hpre : init ++ [back] <+: s.stack := hpop ▸ popExplored_prefix s.stack
      obtain ⟨hrestore, hle⟩ := returnToDepth_restores hrun
      obtain ⟨-, hkeeps, -, htrace, -⟩ :=
        hstack.layered.restore (List.length_pos_iff.mpr hinit) hle hrestore
      obtain ⟨-, -, -, -, hcount⟩ := hstack.layered.restoreModelAtDepth hrestore
      have hlength : s'.stack.length = init.length + 1 := by
        rw [hs', List.length_append, List.length_singleton]
      rw [hlength, hs']
      exact ih.goBack hstack hpre hkeeps hcount htrace (hstack.goBack hpre hinit hrun)
  | finish _ _ hstack _ =>
    intro k i p hk
    rw [hstack] at hk
    exact absurd hk (Nat.not_lt_zero k)

/-- Whenever the trace has been expanded, and `i` is the last position at which the pending
transition of a runner races, the rule for backtrack points is fulfilled there, whatever the
relations are: provided that the runner has been known since the transition at `i` was executed, or
has been executed itself. -/
theorem backtracksFor_of_knownSince (hc : c.Initial) (h : Traced source config callbacks c s hs)
    (hexpands : s.Expands source config stack c') (ht : c'.getTrace.getLast? = some t)
    (hknown : KnownSince c'.getTrace (expandHistories hs t c'.currentProgramModel)
      c'.getTrace.length i p)
    (hrace : LastRaceAt config c'.getTrace (c'.currentProgramModel.nextSteps.lookup p) stack i p) :
    BacktracksFor stack i p := by
  have hkept := (ruleKept_of_traced hc h).of_expands hc h hexpands ht
  obtain ⟨t', ht', hlength, -⟩ := stack_of_expands hc h hexpands
  have hi : i < c'.getTrace.length := by
    obtain ⟨⟨S_i, -, hS_i, -⟩, -⟩ := hrace
    exact (List.getElem?_eq_some_iff.mp hS_i).1
  have hrule := hkept c'.getTrace.length i p (by omega) hi hknown
  have hpending : c'.currentProgramModel.pendingAtDepth c'.getTrace.length p =
      c'.currentProgramModel.nextSteps.lookup p := Program.pendingAtDepth_length
  rw [List.take_length, hpending, List.take_of_length_le hlength.le] at hrule
  exact hrule hrace

end McMini
