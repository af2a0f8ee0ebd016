import McMini.Dpor.Step
import McMini.Foundation.HappensBefore

/-!
# Clock vectors

The clock vector of a transition of the trace should map each runner to the last of its
transitions which happens before the transition (`Search.ClocksExact`). To compute it, the
clock vectors of the transitions on which it directly depends would have to be joined.

An item of the stack keeps the clock vector of the transition which led to its state next to
a pointer to the transition which left it. `accumulateMaxClockVectorAgainst` compares the
latter and joins the former: it joins the clock vector of a transition when the *next* one
of the trace is depended on. Only the last item is different. Its pointer is set from the
start to the transition which led to its state, and after the search has gone back it is
still the transition which left the state before.

`clocksExact_of_joinsPast` says which expansions leave the clock vectors exact: those where
the transitions joined this way have the same past, as far as other runners are concerned,
as the transitions which the new one depends on.
-/

namespace McMini

open Foundation

/-- Dependency of transitions, as the search is configured. -/
def Configuration.Dependent (config : Configuration) (t u : Transition) : Prop :=
  areDependent config.dependencyRelation t u = true

theorem Configuration.dependent_of_executor_eq (config : Configuration) (t u : Transition)
    (h : t.executor = u.executor) : config.Dependent t u := by
  simp [Configuration.Dependent, areDependent, h]

/-- The position in the trace of the transition the runner executed last. -/
def lastExecutedBy (p : RunnerId) (ts : List Transition) : Option ℕ :=
  (ts.reverse.findIdx? (·.executor == p)).map (ts.length - 1 - ·)

/-- The clock vector which the stack keeps for the transition at the position. -/
def clockOf (stack : List StackItem) : Option ℕ → ClockVector
  | some i => ((stack[i + 1]?).map (·.cv)).getD .empty
  | none => .empty

namespace Search

variable (config : Configuration) (s s' : Search)

/-- The items keep the clocks of the transitions of the trace, and the last one keeps for
each runner the clock vector of the transition the runner executed last. -/
structure ClocksExact : Prop where
  size : s.stack ≠ [] → s.stack.length = s.coordinator.getTrace.length + 1
  itemClock : ∀ k item, s.stack[k + 1]? = some item →
    IsClock config.Dependent (·.executor) s.coordinator.getTrace k item.cv.valueFor
  runnerClock : ∀ top, s.stack.getLast? = some top →
    ∀ (p : RunnerId) (runner : RunnerItem), top.perRunnerClocks[p]? = some runner →
      runner.cv = clockOf s.stack (lastExecutedBy p s.coordinator.getTrace)

/-- The positions whose clock vectors are joined for the transition `t`: those where it
depends on the next transition, and the last one if it depends on what the pointer of the
last item refers to. -/
def joinedPositions (t : Transition) : Set ℕ :=
  {k | ∃ u, config.Dependent u t ∧
    (s.coordinator.getTrace[k + 1]? = some u ∨
      k + 1 = s.coordinator.getTrace.length ∧
        ∃ top, s.stack.getLast? = some top ∧ top.outTransition = .valid u)}

/-- If the step expands the trace, the transitions whose clock vectors it joins have the same
past as those the new transition directly depends on. -/
def JoinsPast : Prop :=
  ∀ t, s'.coordinator.getTrace = s.coordinator.getTrace ++ [t] →
    SamePast config.Dependent (·.executor) s.coordinator.getTrace t (s.joinedPositions config t)

end Search

section Lemmas

variable {source : ProcessSource} {config : Configuration} {callbacks : Finset Callback}
  {c c' : Coordinator} {stack stack' init grown : List StackItem} {back top item : StackItem}
  {ts : List Transition} {t : Transition} {p : RunnerId} {s s' s₀ : Search}

/-! ### Positions -/

theorem lastExecutedBy_concat :
    lastExecutedBy p (ts ++ [t]) =
      if t.executor = p then some ts.length else lastExecutedBy p ts := by
  unfold lastExecutedBy
  rw [List.reverse_concat, List.findIdx?_cons, List.length_append, List.length_singleton]
  by_cases h : t.executor = p
  · simp [h]
  · have hshift : (ts.length + 1 - 1 - ·) ∘ (· + 1) = (ts.length - 1 - ·) := by
      funext i
      dsimp only [Function.comp]
      omega
    simp only [h, beq_iff_eq, if_false, Option.map_map, hshift]

theorem lt_length_of_lastExecutedBy {i : ℕ} (h : lastExecutedBy p ts = some i) :
    i < ts.length := by
  obtain ⟨j, hj, rfl⟩ := Option.map_eq_some_iff.mp h
  have hlt := (List.findIdx?_eq_some_iff_getElem.mp hj).1
  rw [List.length_reverse] at hlt
  omega

/-- The clock vectors at the positions of a trace are found in the items up to its state. -/
theorem clockOf_append_left (h : ts.length < stack.length) :
    clockOf (stack ++ stack') (lastExecutedBy p ts) = clockOf stack (lastExecutedBy p ts) := by
  cases hlast : lastExecutedBy p ts with
  | none => rfl
  | some i =>
    have hi := lt_length_of_lastExecutedBy hlast
    rw [clockOf, clockOf, List.getElem?_append_left (by omega)]

/-! ### Joining -/

/-- The item's clock vector is joined for the transition. -/
def StackItem.IsJoined (config : Configuration) (t : Transition) (item : StackItem) : Prop :=
  ∃ u, item.outTransition = .valid u ∧ config.Dependent u t

theorem joinClockVector_eq_ok {result cv : ClockVector}
    (h : joinClockVector config t result item = .ok cv) :
    item.IsJoined config t ∧ cv = result.max item.cv ∨
      ¬ item.IsJoined config t ∧ cv = result := by
  unfold joinClockVector at h
  unfold StackItem.IsJoined
  cases hout : item.outTransition with
  | nullptr =>
    rw [hout] at h
    refine .inr ⟨?_, (Except.ok.inj h).symm⟩
    rintro ⟨u, hu, -⟩
    cases hu
  | dangling =>
    rw [hout] at h
    cases h
  | valid u =>
    rw [hout] at h
    obtain ⟨u', hu', h⟩ := bind_eq_ok.mp h
    obtain rfl : u = u' := Except.ok.inj hu'
    split_ifs at h with hdep
    · exact .inl ⟨⟨u, rfl, hdep⟩, (Except.ok.inj h).symm⟩
    · refine .inr ⟨?_, (Except.ok.inj h).symm⟩
      rintro ⟨u', hu', hdep'⟩
      obtain rfl := TransitionPointer.valid.inj hu'
      exact hdep hdep'

/-- The accumulated clock vector has the largest of the entries which are joined. -/
theorem foldlM_joinClockVector_isGreatest {result cv : ClockVector}
    (h : stack.foldlM (joinClockVector config t) result = .ok cv) (r : RunnerId) :
    IsGreatest (insert (result.valueFor r)
      {v | ∃ item ∈ stack, item.IsJoined config t ∧ v = item.cv.valueFor r}) (cv.valueFor r) := by
  induction stack generalizing result with
  | nil =>
    obtain rfl := Except.ok.inj h
    simp
  | cons item stack ih =>
    rw [List.foldlM_cons] at h
    obtain ⟨result', hresult', h⟩ := bind_eq_ok.mp h
    obtain ⟨hmem, hub⟩ := ih h
    rcases joinClockVector_eq_ok hresult' with ⟨hjoined, rfl⟩ | ⟨hnot, rfl⟩
    · rw [ClockVector.valueFor_max] at hmem hub
      have hle : Nat.max (result.valueFor r) (item.cv.valueFor r) ≤ cv.valueFor r :=
        hub (Set.mem_insert _ _)
      constructor
      · rcases hmem with hmax | ⟨item', hitem', hjoined', hv⟩
        · rcases Nat.le_total (result.valueFor r) (item.cv.valueFor r) with hle' | hle'
          · exact .inr ⟨item, List.mem_cons_self, hjoined, hmax.trans (Nat.max_eq_right hle')⟩
          · exact .inl (hmax.trans (Nat.max_eq_left hle'))
        · exact .inr ⟨item', List.mem_cons_of_mem _ hitem', hjoined', hv⟩
      · rintro v (rfl | ⟨item', hitem', hjoined', rfl⟩)
        · exact (Nat.le_max_left _ _).trans hle
        · rcases List.mem_cons.mp hitem' with rfl | hitem'
          · exact (Nat.le_max_right _ _).trans hle
          · exact hub (.inr ⟨item', hitem', hjoined', rfl⟩)
    · constructor
      · refine hmem.imp id ?_
        rintro ⟨item', hitem', hjoined', hv⟩
        exact ⟨item', List.mem_cons_of_mem _ hitem', hjoined', hv⟩
      · rintro v (rfl | ⟨item', hitem', hjoined', rfl⟩)
        · exact hub (Set.mem_insert _ _)
        · rcases List.mem_cons.mp hitem' with rfl | hitem'
          · exact absurd hjoined' hnot
          · exact hub (.inr ⟨item', hitem', hjoined', rfl⟩)

/-! ### The invariant -/

/-- The stack tracks the trace, with exact clocks at every item. -/
structure Tracks (config : Configuration) (ts : List Transition) (stack : List StackItem) :
    Prop where
  length : stack.length = ts.length + 1
  out : ∀ (i : ℕ) (t : Transition) (item : StackItem), ts[i]? = some t → stack[i]? = some item →
    item.outTransition = .valid t
  root : ∀ item : StackItem, stack[0]? = some item → item.cv = .empty
  clock : ∀ (k : ℕ) (item : StackItem), stack[k + 1]? = some item →
    IsClock config.Dependent (·.executor) ts k item.cv.valueFor
  runner : ∀ (k : ℕ) (item : StackItem), stack[k]? = some item →
    ∀ (p : RunnerId) (runner : RunnerItem), item.perRunnerClocks[p]? = some runner →
      runner.cv = clockOf stack (lastExecutedBy p (ts.take k))

/-- What an item says about clocks. -/
def StackItem.clocks (item : StackItem) : ClockVector × Vector RunnerItem maxTotalThreadsInProgram :=
  (item.cv, item.perRunnerClocks)

section Congr

variable (hclocks : stack'.map (·.clocks) = stack.map (·.clocks))
include hclocks

private theorem exists_of_map_clocks {i : ℕ} (hi : stack'[i]? = some item) :
    ∃ item', stack[i]? = some item' ∧ item'.cv = item.cv ∧
      item'.perRunnerClocks = item.perRunnerClocks := by
  have hmap : (stack.map (·.clocks))[i]? = some item.clocks := by
    rw [← hclocks, List.getElem?_map, hi, Option.map_some]
  rw [List.getElem?_map, Option.map_eq_some_iff] at hmap
  obtain ⟨item', hitem', heq⟩ := hmap
  obtain ⟨hcv, hrunners⟩ := Prod.mk.inj heq
  exact ⟨item', hitem', hcv, hrunners⟩

private theorem clockOf_congr (o : Option ℕ) : clockOf stack' o = clockOf stack o := by
  cases o with
  | none => rfl
  | some i =>
    have hget : ∀ l : List StackItem, (l[i + 1]?).map (·.cv) =
        ((l.map (·.clocks))[i + 1]?).map Prod.fst := by
      intro l
      rw [List.getElem?_map, Option.map_map]
      rfl
    rw [clockOf, clockOf, hget, hget, hclocks]

/-- Sets of runners do not matter, nor does the out transition of the last item. -/
theorem Tracks.congr (h : Tracks config ts stack)
    (hout : ∀ i item item', i < ts.length → stack[i]? = some item → stack'[i]? = some item' →
      item'.outTransition = item.outTransition) : Tracks config ts stack' := by
  constructor
  · have hlen := congrArg List.length hclocks
    rw [List.length_map, List.length_map] at hlen
    rw [hlen, h.length]
  · intro i t item' ht hitem'
    obtain ⟨item, hitem, -⟩ := exists_of_map_clocks hclocks hitem'
    rw [hout i item item' (List.getElem?_eq_some_iff.mp ht).1 hitem hitem']
    exact h.out i t item ht hitem
  · intro item' hitem'
    obtain ⟨item, hitem, hcv, -⟩ := exists_of_map_clocks hclocks hitem'
    rw [← hcv]
    exact h.root item hitem
  · intro k item' hitem'
    obtain ⟨item, hitem, hcv, -⟩ := exists_of_map_clocks hclocks hitem'
    rw [← hcv]
    exact h.clock k item hitem
  · intro k item' hitem' p runner hrunner
    obtain ⟨item, hitem, -, hrunners⟩ := exists_of_map_clocks hclocks hitem'
    rw [clockOf_congr hclocks]
    rw [← hrunners] at hrunner
    exact h.runner k item hitem p runner hrunner

end Congr

/-- Going back: what is left of the stack tracks what is left of the trace. -/
theorem Tracks.take (h : Tracks config ts stack) (hpre : init ++ [back] <+: stack) :
    Tracks config (ts.take init.length) (init ++ [back]) := by
  obtain ⟨rest, rfl⟩ := hpre
  have hlen : init.length ≤ ts.length := by
    have hlength := h.length
    simp only [List.length_append, List.length_singleton] at hlength
    omega
  have hget : ∀ {i item}, (init ++ [back])[i]? = some item →
      ((init ++ [back]) ++ rest)[i]? = some item ∧ i ≤ init.length := by
    intro i item hi
    have hlt : i < (init ++ [back]).length := (List.getElem?_eq_some_iff.mp hi).1
    refine ⟨(List.getElem?_append_left hlt).trans hi, ?_⟩
    rw [List.length_append, List.length_singleton] at hlt
    omega
  constructor
  · simp only [List.length_append, List.length_singleton, List.length_take]
    omega
  · intro i t item ht hi
    rw [List.getElem?_take] at ht
    split_ifs at ht
    exact h.out i t item ht (hget hi).1
  · intro item hi
    exact h.root item (hget hi).1
  · intro k item hk
    rw [isClock_take hlen (hget hk).2]
    exact h.clock k item (hget hk).1
  · intro k item hk p runner hrunner
    have hle := (hget hk).2
    rw [h.runner k item (hget hk).1 p runner hrunner, List.take_take, min_eq_left hle,
      clockOf_append_left]
    rw [List.length_take, List.length_append, List.length_singleton]
    omega

/-- The clock vectors of the transitions of the trace. -/
private def entriesOf (stack : List StackItem) (k : ℕ) (r : RunnerId) : ℕ :=
  ((stack[k + 1]?).map (·.cv.valueFor r)).getD 0

/-- The items whose clock vectors are joined are those at the joined positions. -/
theorem Tracks.accumulate_isGreatest (h : Tracks config s.coordinator.getTrace s.stack)
    {cv : ClockVector} (hcv : accumulateMaxClockVectorAgainst config t s.stack = .ok cv)
    (r : RunnerId) :
    IsGreatest (insert 0 ((entriesOf s.stack · r) '' s.joinedPositions config t))
      (cv.valueFor r) := by
  have hlast : ∀ top, s.stack.getLast? = some top ↔
      s.stack[s.coordinator.getTrace.length]? = some top := by
    intro top
    rw [List.getLast?_eq_getElem?, h.length, Nat.add_sub_cancel]
  obtain ⟨hmem, hub⟩ := foldlM_joinClockVector_isGreatest hcv r
  rw [ClockVector.valueFor_empty] at hmem hub
  constructor
  · rcases hmem with hzero | ⟨item, hitem, ⟨u, hu, hdep⟩, hv⟩
    · exact .inl hzero
    · obtain ⟨i, hi⟩ := List.mem_iff_getElem?.mp hitem
      cases i with
      | zero =>
        -- the clock of the root is zero everywhere
        rw [h.root item hi, ClockVector.valueFor_empty] at hv
        exact .inl hv
      | succ k =>
        have hentry : entriesOf s.stack k r = item.cv.valueFor r := by
          rw [entriesOf, hi, Option.map_some, Option.getD_some]
        refine .inr ⟨k, ⟨u, hdep, ?_⟩, hentry.trans hv.symm⟩
        cases ht : s.coordinator.getTrace[k + 1]? with
        | some u' =>
          obtain rfl : u' = u :=
            TransitionPointer.valid.inj ((h.out (k + 1) u' item ht hi).symm.trans hu)
          exact .inl rfl
        | none =>
          -- behind the trace there is the last item only, whose out transition may be an old one
          have hge : s.coordinator.getTrace.length ≤ k + 1 := List.getElem?_eq_none_iff.mp ht
          have hlt : k + 1 < s.stack.length := (List.getElem?_eq_some_iff.mp hi).1
          have hlen := h.length
          have heq : k + 1 = s.coordinator.getTrace.length := by omega
          exact .inr ⟨heq, item, (hlast item).mpr (heq ▸ hi), hu⟩
  · rintro v (rfl | ⟨k, ⟨u, hdep, hk⟩, rfl⟩)
    · exact Nat.zero_le _
    · obtain ⟨item, hi, hu⟩ : ∃ item, s.stack[k + 1]? = some item ∧
          item.outTransition = .valid u := by
        rcases hk with ht | ⟨hlen, top, htop, hu⟩
        · have hlt : k + 1 < s.stack.length := by
            have hlt := (List.getElem?_eq_some_iff.mp ht).1
            rw [h.length]
            omega
          exact ⟨s.stack[k + 1], List.getElem?_eq_getElem hlt,
            h.out (k + 1) u _ ht (List.getElem?_eq_getElem hlt)⟩
        · exact ⟨top, hlen ▸ (hlast top).mp htop, hu⟩
      have hentry : entriesOf s.stack k r = item.cv.valueFor r := by
        rw [entriesOf, hi, Option.map_some, Option.getD_some]
      show entriesOf s.stack k r ≤ cv.valueFor r
      rw [hentry]
      exact hub (.inr ⟨item, List.mem_of_getElem? hi, ⟨u, hu, hdep⟩, rfl⟩)

/-- The clock vector computed for a new transition is exact if and only if the joined
transitions have its past. -/
theorem Tracks.isClock_iff (h : Tracks config s.coordinator.getTrace s.stack) {cv : ClockVector}
    (hcv : accumulateMaxClockVectorAgainst config t s.stack = .ok cv) :
    IsClock config.Dependent (·.executor) (s.coordinator.getTrace ++ [t])
        s.coordinator.getTrace.length (cv.set t.executor s.stack.length).valueFor ↔
      SamePast config.Dependent (·.executor) s.coordinator.getTrace t
        (s.joinedPositions config t) := by
  refine isClock_concat_iff (c := entriesOf s.stack) config.dependent_of_executor_eq ?_ ?_ ?_
  · rintro k ⟨u, -, hk⟩
    have hlt : k + 1 < s.stack.length := by
      rw [h.length]
      rcases hk with ht | ⟨hlen, -⟩
      · have hlt := (List.getElem?_eq_some_iff.mp ht).1
        omega
      · omega
    have hi := List.getElem?_eq_getElem hlt
    have hentries : entriesOf s.stack k = s.stack[k + 1].cv.valueFor := by
      funext r
      rw [entriesOf, hi, Option.map_some, Option.getD_some]
    rw [hentries]
    exact h.clock k _ hi
  · intro r hr
    have hother : (cv.set t.executor s.stack.length).valueFor r = cv.valueFor r := by
      rw [ClockVector.valueFor_set, if_neg hr]
    rw [hother]
    exact h.accumulate_isGreatest hcv r
  · rw [ClockVector.valueFor_set, if_pos rfl, h.length]

/-! ### Steps -/

private theorem of_getElem?_concat {α : Type} {l : List α} {a b : α} {i : ℕ}
    (h : (l ++ [a])[i]? = some b) : i < l.length ∧ l[i]? = some b ∨ i = l.length ∧ a = b := by
  rcases Nat.lt_or_ge i l.length with hlt | hge
  · rw [List.getElem?_append_left hlt] at h
    exact .inl ⟨hlt, h⟩
  · rw [List.getElem?_append_right hge, List.getElem?_singleton] at h
    split_ifs at h with hzero
    exact .inr ⟨by omega, Option.some.inj h⟩

/-- The item of a new transition is added behind the one whose state it has left. -/
theorem Tracks.concat {new : StackItem} (h : Tracks config ts (init ++ [back]))
    (hout : back.outTransition = .valid t)
    (hclock : IsClock config.Dependent (·.executor) (ts ++ [t]) ts.length new.cv.valueFor)
    (hself : ∀ runner : RunnerItem, new.perRunnerClocks[t.executor]? = some runner →
      runner.cv = new.cv)
    (hothers : ∀ p : RunnerId, t.executor ≠ p →
      new.perRunnerClocks[p]? = back.perRunnerClocks[p]?) :
    Tracks config (ts ++ [t]) (init ++ [back, new]) := by
  have hlen := h.length
  rw [List.append_cons init back [new]]
  have hinit : init.length = ts.length := by
    rw [List.length_append, List.length_singleton] at hlen
    omega
  have hback : (init ++ [back])[ts.length]? = some back := by rw [← hinit, List.getElem?_concat_length]
  constructor
  · rw [List.length_append, hlen, List.length_append, List.length_singleton, List.length_singleton]
  · intro i u item hu hitem
    have hi : i < (init ++ [back]).length := by
      have hi := (List.getElem?_eq_some_iff.mp hu).1
      rw [List.length_append, List.length_singleton] at hi
      omega
    rw [List.getElem?_append_left hi] at hitem
    rcases of_getElem?_concat hu with ⟨-, hu⟩ | ⟨rfl, rfl⟩
    · exact h.out i u item hu hitem
    · obtain rfl : back = item := Option.some.inj (hback.symm.trans hitem)
      exact hout
  · intro item hitem
    rw [List.getElem?_append_left (by omega)] at hitem
    exact h.root item hitem
  · intro k item hitem
    rcases of_getElem?_concat hitem with ⟨hlt, hitem⟩ | ⟨hk, rfl⟩
    · rw [isClock_append_left (by omega)]
      exact h.clock k item hitem
    · obtain rfl : k = ts.length := by omega
      exact hclock
  · intro k item hitem p runner hrunner
    rcases of_getElem?_concat hitem with ⟨hlt, hitem⟩ | ⟨rfl, rfl⟩
    · have hk : k ≤ ts.length := by omega
      rw [List.take_append_of_le_length hk, clockOf_append_left]
      · exact h.runner k item hitem p runner hrunner
      · rw [List.length_take]
        omega
    -- the new item has got the clock of the transition for its executor, and copies for the others
    · have htake : (ts ++ [t]).take (init ++ [back]).length = ts ++ [t] :=
        List.take_of_length_le (by rw [hlen, List.length_append, List.length_singleton])
      rw [htake, lastExecutedBy_concat]
      by_cases hp : t.executor = p
      · subst hp
        have hnew : (init ++ [back] ++ [new])[ts.length + 1]? = some new := by
          rw [← hlen, List.getElem?_concat_length]
        rw [if_pos rfl, clockOf, hnew]
        exact hself runner hrunner
      · rw [hothers p hp] at hrunner
        have hrest := h.runner ts.length back hback p runner hrunner
        rw [List.take_length] at hrest
        rw [if_neg hp, clockOf_append_left (by omega)]
        exact hrest

/-- The clocks of the runners, after one of them has got a new one. -/
theorem withClockVector_eq_ok {cv : ClockVector} {clocks : Vector RunnerItem maxTotalThreadsInProgram}
    (h : item.withClockVector p cv = .ok clocks) :
    (∀ runner : RunnerItem, clocks[p]? = some runner → runner.cv = cv) ∧
      ∀ q : RunnerId, p ≠ q → clocks[q]? = item.perRunnerClocks[q]? := by
  unfold StackItem.withClockVector at h
  split_ifs at h with hp
  obtain rfl := Except.ok.inj h
  constructor
  · intro runner hrunner
    rw [Vector.getElem?_set_self] at hrunner
    rw [← Option.some.inj hrunner]
  · intro q hq
    rw [Vector.getElem?_set_ne hp hq]

/-- Growing the stack keeps the clocks exact if the joined transitions have the past of the
new one, whose clock is wrong otherwise. -/
theorem Tracks.grow (h : Tracks config s.coordinator.getTrace s.stack)
    (ht : c'.getTrace = s.coordinator.getTrace ++ [t])
    (hgrow : growStackAfterRunning config c' s.stack = .ok grown) :
    (SamePast config.Dependent (·.executor) s.coordinator.getTrace t
      (s.joinedPositions config t) → Tracks config c'.getTrace grown) ∧
    ∃ new, grown[s.coordinator.getTrace.length + 1]? = some new ∧
      (IsClock config.Dependent (·.executor) c'.getTrace s.coordinator.getTrace.length
          new.cv.valueFor ↔
        SamePast config.Dependent (·.executor) s.coordinator.getTrace t
          (s.joinedPositions config t)) := by
  obtain ⟨init, s_n, t_n, cv, clocks, enabled, asleep, hstack, hlast, -, hcv, hwith, -, -, rfl⟩ :=
    growStackAfterRunning_eq_ok hgrow
  obtain rfl : t = t_n := by
    rw [ht, List.getLast?_concat] at hlast
    exact Option.some.inj hlast
  have hiff := h.isClock_iff hcv
  have hinit : init.length = s.coordinator.getTrace.length := by
    have hlen := h.length
    rw [hstack, List.length_append, List.length_singleton] at hlen
    omega
  rw [ht]
  constructor
  · intro hpast
    have hleaving : Tracks config s.coordinator.getTrace (init ++ [s_n.leaving t]) := by
      refine h.congr ?_ ?_
      · rw [hstack, List.map_append, List.map_append]
        rfl
      · intro i item item' hi hitem hitem'
        rw [hstack, List.getElem?_append_left (by omega)] at hitem
        rw [List.getElem?_append_left (by omega)] at hitem'
        rw [Option.some.inj (hitem.symm.trans hitem')]
    obtain ⟨hself, hothers⟩ := withClockVector_eq_ok hwith
    exact hleaving.concat rfl (hiff.mpr hpast) hself hothers
  · have hget : ∀ a b : StackItem,
        (init ++ [a, b])[s.coordinator.getTrace.length + 1]? = some b := by
      intro a b
      have hone : s.coordinator.getTrace.length + 1 - init.length = 1 := by omega
      rw [List.getElem?_append_right (by omega), hone]
      rfl
    exact ⟨_, hget _ _, hiff⟩

/-- An expansion keeps the clocks exact if and only if the joined transitions have the past
of the new one. -/
theorem Tracks.expand (h : Tracks config s.coordinator.getTrace s.stack)
    (hrun : (Search.continueDporByExpandingTraceWith source config p s.stack).run s.coordinator =
      (.ok stack', c')) :
    ∃ t, c'.getTrace = s.coordinator.getTrace ++ [t] ∧
      (SamePast config.Dependent (·.executor) s.coordinator.getTrace t
        (s.joinedPositions config t) → Tracks config c'.getTrace stack') ∧
      ((∀ item, stack'[s.coordinator.getTrace.length + 1]? = some item →
        IsClock config.Dependent (·.executor) c'.getTrace s.coordinator.getTrace.length
          item.cv.valueFor) →
        SamePast config.Dependent (·.executor) s.coordinator.getTrace t
          (s.joinedPositions config t)) := by
  obtain ⟨hexecute, grown, hgrow, hupdate⟩ :=
    Search.continueDporByExpandingTraceWith_eq_ok hrun
  obtain ⟨t, ht⟩ := executeRunner_trace hexecute
  obtain ⟨hkeep, new, hnew, hiff⟩ := h.grow ht hgrow
  have hclocks : stack'.map (·.clocks) = grown.map (·.clocks) := by
    have hmap := congrArg (List.map StackItem.clocks) (dynamicallyUpdateBacktrackSets_map hupdate)
    rw [List.map_map, List.map_map] at hmap
    exact hmap
  have houts : stack'.map (·.outTransition) = grown.map (·.outTransition) := by
    have hmap := congrArg (List.map StackItem.outTransition)
      (dynamicallyUpdateBacktrackSets_map hupdate)
    rw [List.map_map, List.map_map] at hmap
    exact hmap
  refine ⟨t, ht, fun hpast => (hkeep hpast).congr hclocks ?_, fun hclock => ?_⟩
  · intro i item item' _ hitem hitem'
    have hmap := congrArg (·[i]?) houts
    simp only [List.getElem?_map, hitem, hitem', Option.map_some] at hmap
    exact Option.some.inj hmap
  · obtain ⟨item, hitem, hcv, -⟩ := exists_of_map_clocks hclocks.symm hnew
    refine hiff.mp ?_
    rw [← hcv]
    exact hclock item hitem

/-! ### Runs -/

theorem Tracks.clocksExact (h : Tracks config s.coordinator.getTrace s.stack) :
    s.ClocksExact config where
  size _ := h.length
  itemClock := h.clock
  runnerClock top htop p runner hrunner := by
    rw [List.getLast?_eq_getElem?, h.length, Nat.add_sub_cancel] at htop
    have hclock := h.runner _ top htop p runner hrunner
    rw [List.take_length] at hclock
    exact hclock

theorem Search.clocksExact_of_stack_eq_nil (h : s.stack = []) : s.ClocksExact config where
  size hne := absurd h hne
  itemClock k item hitem := by
    rw [h] at hitem
    cases hitem
  runnerClock top htop := by
    rw [h] at htop
    cases htop

/-- A search which has returned, or whose stack tracks the trace. -/
def Search.Tracked (config : Configuration) (s : Search) : Prop :=
  s.stack = [] ∨ Tracks config s.coordinator.getTrace s.stack

theorem Search.Tracked.clocksExact (h : s.Tracked config) : s.ClocksExact config :=
  h.elim Search.clocksExact_of_stack_eq_nil Tracks.clocksExact

theorem Search.tracked_of_start (hc : c.getTrace = []) (h : Search.start c = .ok s₀) :
    s₀.Tracked config := by
  obtain ⟨enabled, -, h⟩ := bind_eq_ok.mp h
  obtain rfl := Except.ok.inj h
  refine .inr ⟨?_, ?_, ?_, ?_, ?_⟩
  · rw [hc]
    rfl
  · intro i t item ht
    rw [hc] at ht
    cases ht
  · intro item hitem
    rw [← Option.some.inj hitem]
  · intro k item hitem
    cases hitem
  · intro k item hitem p runner hrunner
    have hk : k = 0 := by
      have hlt := (List.getElem?_eq_some_iff.mp hitem).1
      simpa using hlt
    subst hk
    obtain rfl := Option.some.inj hitem
    have hempty : runner = {} := by
      obtain ⟨hlt, hget⟩ := Vector.getElem?_eq_some_iff.mp hrunner
      rw [← hget, Vector.getElem_replicate]
    rw [hempty, List.take_zero]
    rfl

/-- A step which does not expand the trace joins nothing. -/
theorem Search.joinsPast_of_length_le
    (h : s'.coordinator.getTrace.length ≤ s.coordinator.getTrace.length) :
    s.JoinsPast config s' := by
  intro t ht
  rw [ht, List.length_append, List.length_singleton] at h
  omega

/-- What a step does to exact clocks. -/
theorem Search.Tracked.step (h : s.Tracked config) (hstep : Steps source config callbacks s s') :
    (s.JoinsPast config s' → s'.Tracked config) ∧
      (s'.ClocksExact config → s.JoinsPast config s') := by
  -- an expansion from a stack with the clocks of the one before the step
  have expand : ∀ {p : RunnerId} {stack : List StackItem},
      Tracks config s.coordinator.getTrace stack →
      (∀ t, ({ s with stack := stack } : Search).joinedPositions config t =
        s.joinedPositions config t) →
      (continueDporByExpandingTraceWith source config p stack).run s.coordinator =
        (.ok s'.stack, s'.coordinator) →
      (s.JoinsPast config s' → s'.Tracked config) ∧
        (s'.ClocksExact config → s.JoinsPast config s') := by
    intro p stack htracks hjoined hrun
    obtain ⟨t, ht, hkeep, hexact⟩ :=
      Tracks.expand (s := { s with stack := stack }) htracks hrun
    rw [hjoined t] at hkeep hexact
    refine ⟨fun hpast => .inr (hkeep (hpast t ht)), fun hclocks u hu => ?_⟩
    obtain rfl : t = u := by
      have heq := ht.symm.trans hu
      exact List.singleton_inj.mp (List.append_cancel_left heq)
    exact hexact (hclocks.itemClock _)
  have htracks : s.stack ≠ [] → Tracks config s.coordinator.getTrace s.stack :=
    fun hne => h.resolve_left hne
  cases hstep.move with
  | explore init back _ hstack _ _ hrun =>
    exact expand (htracks (by rw [hstack]; simp)) (fun _ => rfl) hrun
  | finish _ _ hstack hcoordinator =>
    exact ⟨fun _ => .inl hstack, fun _ => joinsPast_of_length_le (by rw [hcoordinator])⟩
  | goBack init back _ hpop hrun hstack =>
    have hpre : popExplored s.stack <+: s.stack := List.rdropWhile_prefix _ _
    rw [hpop] at hpre
    have hne : s.stack ≠ [] := by
      rintro hnil
      rw [hnil] at hpre
      simpa using hpre.length_le
    obtain ⟨htrace, hle⟩ := returnToDepth_trace hrun
    refine ⟨fun _ => .inr ?_, fun _ => joinsPast_of_length_le ?_⟩
    · rw [hstack, htrace]
      refine ((htracks hne).take hpre).congr ?_ ?_
      · rw [List.map_append, List.map_append]
        unfold afterReturn
        split_ifs <;> rfl
      · intro i item item' hi hitem hitem'
        rw [List.length_take] at hi
        rw [List.getElem?_append_left (by omega)] at hitem hitem'
        rw [Option.some.inj (hitem.symm.trans hitem')]
    · rw [htrace, List.length_take]
      exact min_le_right _ _
  | follow init back rid _ hstack _ _ hrun =>
    have hne : s.stack ≠ [] := by
      rw [hstack]
      simp
    refine expand ((htracks hne).congr ?_ ?_) (fun t => ?_) hrun
    · rw [hstack, List.map_append, List.map_append]
      rfl
    · intro i item item' hi hitem hitem'
      have hlen := (htracks hne).length
      rw [hstack, List.length_append, List.length_singleton] at hlen
      rw [hstack] at hitem
      rw [List.getElem?_append_left (by omega)] at hitem hitem'
      rw [Option.some.inj (hitem.symm.trans hitem')]
    · simp only [joinedPositions, hstack, List.getLast?_concat, Option.some.injEq,
        exists_eq_left']
      rfl

/-- **When clock vectors are exact.** In every run whose expansions join transitions with
the right past, the clock vectors are exact in the state reached, and they stay exact in the
next state if and only if the next step does so too. -/
theorem clocksExact_of_joinsPast (hc : c.getTrace = []) (hstart : Search.start c = .ok s₀)
    (h : Relation.ReflTransGen (fun s s' => Search.Steps source config callbacks s s' ∧
      s.JoinsPast config s') s₀ s) :
    s.ClocksExact config ∧ ∀ s', Search.Steps source config callbacks s s' →
      (s'.ClocksExact config ↔ s.JoinsPast config s') := by
  have htracked : s.Tracked config := by
    induction h with
    | refl => exact Search.tracked_of_start hc hstart
    | tail _ hstep ih => exact (ih.step hstep.1).1 hstep.2
  refine ⟨htracked.clocksExact, fun s' hstep => ⟨(htracked.step hstep).2, fun hpast => ?_⟩⟩
  exact ((htracked.step hstep).1 hpast).clocksExact

end Lemmas

/-! ### A trace with a wrong clock -/

/-- A target whose main thread creates two threads and joins the first. -/
private def creatingTwo : ProcessSource := fun executed p =>
  match p, executed.length with
  | 0, 0 => .ok (.threadCreate 1)
  | 0, 1 => .ok (.threadCreate 2)
  | 0, _ => .ok (.threadJoin 1)
  | _, _ => .ok .threadExit

/-- The search of this target after some steps. -/
private def searchOfTwo : ℕ → Search
  | 0 => { coordinator := .atMain, stack := [{ cv := .empty, enabledRunners := {0} }] }
  | n + 1 =>
    match (searchOfTwo n).step creatingTwo {} ∅ with
    | .continues s => s
    | _ => searchOfTwo n

private theorem start_searchOfTwo : Search.start .atMain = .ok (searchOfTwo 0) := by rfl

private theorem steps_searchOfTwo :
    ∀ n < 4, Search.Steps creatingTwo {} ∅ (searchOfTwo n) (searchOfTwo (n + 1))
  | 0, _ | 1, _ | 2, _ | 3, _ => by rfl

private theorem trace_searchOfTwo : (searchOfTwo 4).coordinator.getTrace =
    [⟨0, .threadStart⟩, ⟨0, .threadCreate 1⟩, ⟨0, .threadCreate 2⟩, ⟨1, .threadStart⟩] := by rfl

/-- The first thread starts after it has been created, at position `2` of the trace. The
search finds position `1` only: the creation of the second thread comes in between, on which
nothing of the first thread depends. -/
theorem not_clocksExact_of_reachable :
    ¬ ∀ (source : ProcessSource) (config : Configuration) (callbacks : Finset Callback)
      (c : Coordinator) (s : Search), c.getTrace = [] →
      Search.Reachable source config callbacks c s → s.ClocksExact config := by
  intro h
  have hreachable : Search.Reachable creatingTwo {} ∅ .atMain (searchOfTwo 4) := by
    refine ⟨_, start_searchOfTwo, ?_⟩
    exact (((Relation.ReflTransGen.single (steps_searchOfTwo 0 (by omega))).tail
      (steps_searchOfTwo 1 (by omega))).tail (steps_searchOfTwo 2 (by omega))).tail
      (steps_searchOfTwo 3 (by omega))
  have hexact := h creatingTwo {} ∅ .atMain (searchOfTwo 4) rfl hreachable
  have hitem : ((searchOfTwo 4).stack[4]?).map (·.cv.valueFor 0) = some 1 := by rfl
  obtain ⟨item, hitem, hvalue⟩ := Option.map_eq_some_iff.mp hitem
  have hgreatest := hexact.itemClock 3 item hitem 0
  have hcreated : 2 ∈ ticks ({} : Configuration).Dependent (·.executor)
      (searchOfTwo 4).coordinator.getTrace 3 0 := by
    rw [trace_searchOfTwo]
    refine ⟨1, ⟨0, .threadCreate 1⟩, rfl, rfl, rfl, .single ⟨by omega, ?_⟩⟩
    exact ⟨⟨0, .threadCreate 1⟩, ⟨1, .threadStart⟩, rfl, rfl, rfl⟩
  have hle := hgreatest.2 (.inr hcreated)
  omega

/-! ### A trace with exact clocks -/

private theorem joinsPast_of_getTrace {config : Configuration} {s s' : Search} {t : Transition}
    (ht : s'.coordinator.getTrace = s.coordinator.getTrace ++ [t])
    (hpast : SamePast config.Dependent (·.executor) s.coordinator.getTrace t
      (s.joinedPositions config t)) : s.JoinsPast config s' := by
  intro u hu
  obtain rfl : t = u := List.singleton_inj.mp (List.append_cancel_left (ht.symm.trans hu))
  exact hpast

/-- Thread `0` sets up the first mutex and joins thread `1`, which locks the second mutex and then
the first one. -/
private def lockingBoth : ProcessSource := fun executed p =>
  if p = 0 then .ok (.threadJoin 1)
  else if executed.length = 1 then .ok (.mutexLock 200 false)
  else .ok .threadExit

/-- The search of this target after some steps. -/
private def searchOfLockingBoth : ℕ → Search
  | 0 => {
    coordinator := ⟨.ofState (.twoThreads (.mutex ⟨.unlocked, 200, ridInvalid⟩)
      (.mutex ⟨.unlocked, 300, ridInvalid⟩))
      ((Finmap.singleton 0 ⟨0, .mutexInit 2⟩).insert 1 ⟨1, .mutexLock 3⟩),
        (Finmap.singleton 200 2).insert 300 3, []⟩
    stack := [{ cv := .empty, enabledRunners := {0, 1} }] }
  | n + 1 =>
    match (searchOfLockingBoth n).step lockingBoth {} ∅ with
    | .continues s => s
    | _ => searchOfLockingBoth n

private theorem start_searchOfLockingBoth :
    Search.start (searchOfLockingBoth 0).coordinator = .ok (searchOfLockingBoth 0) := by rfl

private theorem steps_searchOfLockingBoth : ∀ n < 3,
    Search.Steps lockingBoth {} ∅ (searchOfLockingBoth n) (searchOfLockingBoth (n + 1))
  | 0, _ | 1, _ | 2, _ => by rfl

/-- Nothing is in the past of the lock of the second mutex. That of the first one depends on its
set-up, which is in the past of the position before the lock of the second one. -/
private theorem joinsPast_searchOfLockingBoth : ∀ n < 3,
    (searchOfLockingBoth n).JoinsPast {} (searchOfLockingBoth (n + 1))
  | 0, _ => fun t _ i b hb => by cases hb
  | 1, _ => by
    have ht : (searchOfLockingBoth 2).coordinator.getTrace =
        (searchOfLockingBoth 1).coordinator.getTrace ++ [⟨1, .mutexLock 3⟩] := by rfl
    refine joinsPast_of_getTrace ht fun i b hb hne => ⟨?_, ?_⟩
    · rintro ⟨k, ⟨u, hdep, hk | ⟨-, top, htop, hout⟩⟩, -⟩
      · cases hk
      · have hlast : (searchOfLockingBoth 1).stack.getLast?.map (·.outTransition) =
            some (.valid ⟨0, .mutexInit 2⟩) := by rfl
        rw [htop, Option.map_some, hout] at hlast
        obtain rfl := TransitionPointer.valid.inj (Option.some.inj hlast)
        cases hdep
    · rintro ⟨k, ⟨a, ha, hdep⟩, -⟩
      have hlt := (List.getElem?_eq_some_iff.mp ha).1
      obtain rfl : k = 0 := Nat.lt_one_iff.mp hlt
      obtain rfl : (⟨0, .mutexInit 2⟩ : Transition) = a := Option.some.inj ha
      cases hdep
  | 2, _ => by
    have ht : (searchOfLockingBoth 3).coordinator.getTrace =
        (searchOfLockingBoth 2).coordinator.getTrace ++ [⟨1, .mutexLock 2⟩] := by rfl
    refine joinsPast_of_getTrace ht fun i b hb hne => ?_
    have hlt : i < 2 := (List.getElem?_eq_some_iff.mp hb).1
    obtain rfl : i = 0 := by
      by_contra hzero
      obtain rfl : i = 1 := by omega
      obtain rfl : (⟨1, .mutexLock 3⟩ : Transition) = b := Option.some.inj hb
      exact hne rfl
    exact iff_of_true ⟨0, ⟨⟨1, .mutexLock 3⟩, rfl, .inl rfl⟩, .refl⟩
      ⟨0, ⟨⟨0, .mutexInit 2⟩, rfl, rfl⟩, .refl⟩

/-- When thread `1` has locked the first mutex, the clocks of both threads are exact. -/
theorem clocksExact_of_lockingBoth :
    ∃ s, Search.Reachable lockingBoth {} ∅ (searchOfLockingBoth 0).coordinator s ∧
      s.coordinator.getTrace = [⟨0, .mutexInit 2⟩, ⟨1, .mutexLock 3⟩, ⟨1, .mutexLock 2⟩] ∧
      s.ClocksExact {} := by
  have hrun : ∀ n ≤ 3, Relation.ReflTransGen (fun s s' =>
      Search.Steps lockingBoth {} ∅ s s' ∧ s.JoinsPast {} s') (searchOfLockingBoth 0)
        (searchOfLockingBoth n) := by
    intro n hn
    induction n with
    | zero => exact .refl
    | succ n ih =>
      exact (ih (by omega)).tail
        ⟨steps_searchOfLockingBoth n (by omega), joinsPast_searchOfLockingBoth n (by omega)⟩
  refine ⟨searchOfLockingBoth 3, ⟨_, start_searchOfLockingBoth, ?_⟩, by rfl, ?_⟩
  · exact Relation.ReflTransGen.mono (fun _ _ h => h.1) _ _ (hrun 3 le_rfl)
  · exact (clocksExact_of_joinsPast rfl start_searchOfLockingBoth (hrun 3 le_rfl)).1

end McMini
