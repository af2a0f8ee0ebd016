import McMini.Properties.Depths
import McMini.Properties.ErrorReports
import McMini.Properties.FirstTransition

/-!
# What the search has done

An item of the stack stays there while the search explores what follows its state, and its sets
are changed all the time. To say what they mean we follow the search with a *history* for each
item (`Traced`): the model as it was when the item was pushed, the transitions which were executed
from its state and whose continuations have been explored, and the transition whose continuations
are being explored.

What the search keeps (`StackInvariant`) relates the items to the model and to the histories. In
particular the cached set of enabled runners is right whenever the search looks at it, and each
runner which the search executes, or has executed again when it goes back, is enabled
(`executes_enabled`).
-/

namespace McMini

open Search Foundation

/-- What the search leaves behind when it goes back from a state: the item of the state as it was
popped, the model there, and the transitions executed from the item with what has been left behind
after each of them. -/
inductive Subtree
  | node (item : StackItem) (model : Program) (branches : List (Transition × Subtree))

def Subtree.model : Subtree → Program
  | .node _ model _ => model

/-- What has happened to an item since it was pushed. -/
structure ItemHistory where
  /-- The model when the item was pushed. -/
  model : Program
  /-- The transitions executed from the item which the search has come back from, with what it has
  left behind after each of them. -/
  explored : List (Transition × Subtree) := []
  /-- The transition which the search follows. -/
  current : Option Transition := none

namespace ItemHistory

/-- The transitions which were executed from the item, in order. -/
def executed (hist : ItemHistory) : List Transition :=
  hist.explored.map Prod.fst ++ hist.current.toList

def execute (t : Transition) (hist : ItemHistory) : ItemHistory := { hist with current := some t }

/-- What is left behind below the item when the items above it are popped. -/
def branches : ItemHistory → List (StackItem × ItemHistory) → List (Transition × Subtree)
  | hist, [] => hist.explored
  | hist, (item, above) :: rest => hist.explored ++ hist.current.toList.map fun t =>
      (t, .node item above.model (above.branches rest))

/-- The search has come back, and has popped the items above. -/
def comeBack (above : List (StackItem × ItemHistory)) (hist : ItemHistory) : ItemHistory :=
  { hist with explored := hist.branches above, current := none }

theorem map_branches {hist : ItemHistory} {above : List (StackItem × ItemHistory)}
    (h : above = [] → hist.current = none) :
    (hist.branches above).map Prod.fst = hist.executed := by
  cases above with
  | nil => rw [branches, executed, h rfl, Option.toList_none, List.append_nil]
  | cons item rest =>
    rw [branches, executed, List.map_append, List.map_map]
    exact congrArg _ (List.map_id _)

end ItemHistory

/-- The histories when `t` is executed from the last item, which leads to the model. -/
def expandHistories (hs : List ItemHistory) (t : Transition) (model : Program) : List ItemHistory :=
  hs.modify (hs.length - 1) (.execute t) ++ [{ model := model }]

/-- The histories when the search comes back to the item at the top of `n`, from the stack. -/
def backHistories (stack : List StackItem) (hs : List ItemHistory) (n : ℕ) : List ItemHistory :=
  (hs.take n).modify (n - 1) (.comeBack ((stack.zip hs).drop n))

section Histories

variable {hs : List ItemHistory} {t : Transition} {model : Program} {hist : ItemHistory} {i n : ℕ}

theorem getElem?_expandHistories (hlength : hs.length = n + 1) :
    (expandHistories hs t model)[i]? = some hist ↔
      i < n ∧ hs[i]? = some hist ∨
        i = n ∧ (∃ old, hs[n]? = some old ∧ old.execute t = hist) ∨
        i = n + 1 ∧ hist = { model := model } := by
  rw [expandHistories, hlength, Nat.add_sub_cancel]
  rcases lt_trichotomy i n with hi | rfl | hi
  · rw [List.getElem?_append_left (by rw [List.length_modify]; omega), List.getElem?_modify_ne _ _ hi.ne']
    simp [hi, hi.ne, (Nat.lt_succ_of_lt hi).ne]
  · rw [List.getElem?_append_left (by rw [List.length_modify]; omega), List.getElem?_modify_eq]
    simp
  · rw [List.getElem?_append_right (by rw [List.length_modify]; omega), List.length_modify, hlength]
    by_cases hi' : i = n + 1
    · subst hi'
      simp [eq_comm]
    · have hgt : i - (n + 1) ≠ 0 := by omega
      simp [hi', hi.not_gt, hi.ne', hgt]

theorem getElem?_backHistories {stack : List StackItem} (hlength : n < hs.length) :
    (backHistories stack hs (n + 1))[i]? = some hist ↔
      i < n ∧ hs[i]? = some hist ∨
        i = n ∧ ∃ old, hs[n]? = some old ∧
          old.comeBack ((stack.zip hs).drop (n + 1)) = hist := by
  rw [backHistories, Nat.add_sub_cancel]
  rcases lt_trichotomy i n with hi | rfl | hi
  · rw [List.getElem?_modify_ne _ _ hi.ne', List.getElem?_take_of_lt (by omega)]
    simp [hi, hi.ne]
  · rw [List.getElem?_modify_eq, List.getElem?_take_of_lt (by omega)]
    simp
  · rw [List.getElem?_eq_none (by rw [List.length_modify, List.length_take]; omega)]
    have hne : i ≠ n := hi.ne'
    simp [hi.not_gt, hne]

end Histories

namespace Search

variable (source : ProcessSource) (config : Configuration) (callbacks : Finset Callback)

/-- In its step from `s`, the search calls `continueDporByExpandingTraceWith`, which leaves the
stack and the coordinator behind. -/
inductive Expands (s : Search) (stack : List StackItem) (c : Coordinator) : Prop
  | explore (init : List StackItem) (back : StackItem) (hphase : s.phase = .exploration)
      (hstack : s.stack = init ++ [back]) (henabled : back.enabledRunners ≠ ∅)
      (hrun : (continueDporByExpandingTraceWith source config back.getFirstEnabledRunner
        s.stack).run s.coordinator = (.ok stack, c))
  | follow (init : List StackItem) (back : StackItem) (rid : RunnerId)
      (hphase : s.phase = .backtrack) (hstack : s.stack = init ++ [back])
      (hrid : rid ∈ back.backtrackSet)
      (hrun : (continueDporByExpandingTraceWith source config rid
        (init ++ [back.markSearched rid])).run s.coordinator = (.ok stack, c))

/-- The states which the search goes through, with the histories of the items. -/
inductive Traced (c : Coordinator) : Search → List ItemHistory → Prop
  | start {s : Search} (hstart : start c = .ok s) :
      Traced c s [{ model := c.currentProgramModel }]
  | expand {s s' : Search} {hs : List ItemHistory} {t : Transition} (h : Traced c s hs)
      (hstep : Steps source config callbacks s s')
      (hexpands : s.Expands source config s'.stack s'.coordinator)
      (ht : s'.coordinator.getTrace.getLast? = some t) :
      Traced c s' (expandHistories hs t s'.coordinator.currentProgramModel)
  | back {s s' : Search} {hs : List ItemHistory} (h : Traced c s hs)
      (hstep : Steps source config callbacks s s') (hphase : s'.phase = .backtrack) :
      Traced c s' (backHistories s.stack hs s'.stack.length)
  | finish {s s' : Search} {hs : List ItemHistory} (h : Traced c s hs)
      (hstep : Steps source config callbacks s s') (hstack : s'.stack = []) : Traced c s' []

end Search

variable {source : ProcessSource} {config : Configuration} {callbacks : Finset Callback}
  {c c' : Coordinator} {s s' : Search} {hs : List ItemHistory} {stack stack' : List StackItem}

/-- Every state which the search goes through has histories. -/
theorem Search.Reachable.traced (h : Reachable source config callbacks c s) :
    ∃ hs, Traced source config callbacks c s hs := by
  obtain ⟨s₀, hstart, hrun⟩ := h
  induction hrun with
  | refl => exact ⟨_, .start hstart⟩
  | tail _ hstep ih =>
    obtain ⟨hs, hs'⟩ := ih
    have expand : ∀ {p : RunnerId} {stack : List StackItem} {s s' : Search},
        (continueDporByExpandingTraceWith source config p stack).run s.coordinator =
          (.ok s'.stack, s'.coordinator) → ∃ t, s'.coordinator.getTrace.getLast? = some t := by
      intro p stack s s' hrun
      obtain ⟨t, ht⟩ := executeRunner_trace (continueDporByExpandingTraceWith_eq_ok hrun).1
      exact ⟨t, by rw [ht, List.getLast?_concat]⟩
    cases hstep.move with
    | explore init back hphase hstack henabled _ hrun =>
      obtain ⟨t, ht⟩ := expand hrun
      exact ⟨_, hs'.expand hstep (.explore init back hphase.1 hstack henabled hrun) ht⟩
    | finish _ _ hstack _ => exact ⟨_, hs'.finish hstep hstack⟩
    | goBack init back hphase _ _ _ => exact ⟨_, hs'.back hstep hphase.2⟩
    | follow init back rid hphase hstack hrid _ hrun =>
      obtain ⟨t, ht⟩ := expand hrun
      exact ⟨_, hs'.expand hstep (.follow init back rid hphase.1 hstack hrid hrun) ht⟩

theorem Search.Traced.reachable (h : Traced source config callbacks c s hs) :
    Reachable source config callbacks c s := by
  induction h with
  | start hstart => exact ⟨_, hstart, .refl⟩
  | expand _ hstep _ _ ih | back _ hstep _ ih | finish _ hstep _ ih =>
    obtain ⟨s₀, hstart, hrun⟩ := ih
    exact ⟨s₀, hstart, hrun.tail hstep⟩

/-! ### Checks along the search -/

/-- Whether the search returns after fewer than `n` steps from the state, and each state which it
goes through passes the check. -/
def Search.passes (source : ProcessSource) (config : Configuration) (callbacks : Finset Callback)
    (check : Search → Bool) : ℕ → Search → Bool
  | 0, _ => false
  | n + 1, s => check s && match s.step source config callbacks with
    | .continues s' => s'.passes source config callbacks check n
    | _ => true

/-- A check which is passed along the search is passed by every state it goes through. -/
theorem Search.Reachable.check_of_passes {check : Search → Bool} {s₀ : Search} {n : ℕ}
    (h : Reachable source config callbacks c s) (hstart : start c = .ok s₀)
    (hpasses : s₀.passes source config callbacks check n = true) : check s = true := by
  obtain ⟨s₁, hs₁, hrun⟩ := h
  obtain rfl := Except.ok.inj (hstart.symm.trans hs₁)
  clear hstart hs₁
  induction hrun using Relation.ReflTransGen.head_induction_on generalizing n with
  | refl =>
    cases n with
    | zero => cases hpasses
    | succ n => exact (Bool.and_eq_true_iff.mp hpasses).1
  | head hstep _ ih =>
    cases n with
    | zero => cases hpasses
    | succ n =>
      have hlater := (Bool.and_eq_true_iff.mp hpasses).2
      rw [show _ = Progress.continues _ from hstep] at hlater
      exact ih hlater

/-! ### What the search keeps -/

/-- The backtrack set of an item holds enabled runners which have not been explored. -/
structure StackItem.WellMarked (item : StackItem) : Prop where
  backtrack : item.backtrackSet ⊆ item.enabledRunners
  disjoint : ∀ q ∈ item.backtrackSet, q ∉ item.doneSet

/-- What is known of the item at depth `i` of the program, given its history. -/
structure ItemInvariant (p : Program) (r₀ : ℕ) (runners : List ℕ) (i : ℕ) (item : StackItem)
    (hist : ItemHistory) : Prop where
  layered : hist.model.Layered r₀ (runners.take (i + 1))
  trace : hist.model.trace = p.trace.take i
  keeps : hist.model.Keeps i p
  count : runners[i]? = some hist.model.runnerCount
  enabled : ∃ l, hist.model.getEnabledRunners = .ok l ∧ item.enabledRunners = l.toFinset
  marked : item.WellMarked
  asleep : item.doneSet ⊆ item.sleepSet
  done : ∀ q, q ∈ item.doneSet ↔ q ∈ hist.executed.map (·.executor)
  nodup : (hist.executed.map (·.executor)).Nodup
  current : hist.current = p.trace[i]?
  out : ∀ t, p.trace[i]? = some t → item.outTransition = .valid t

/-- What the search keeps: one item for each depth of the trace, with its history. -/
structure StackInvariant (r₀ : ℕ) (runners : List ℕ) (c : Coordinator) (stack : List StackItem)
    (hs : List ItemHistory) : Prop where
  layered : c.currentProgramModel.Layered r₀ runners
  length : stack.length = c.getTrace.length + 1
  histories : hs.length = stack.length
  items : ∀ (i : ℕ) (item : StackItem) (hist : ItemHistory), stack[i]? = some item →
    hs[i]? = some hist → ItemInvariant c.currentProgramModel r₀ runners i item hist

/-! ### Expanding the trace -/

/-- What one call of `continueDporByExpandingTraceWith` has done to the item at the top. -/
structure Expansion (config : Configuration) (r₀ : ℕ) (runners : List ℕ) (c : Coordinator)
    (init : List StackItem) (back : StackItem) (t : Transition) (new : StackItem)
    (stack' : List StackItem) (c' : Coordinator) : Prop where
  pending : c.currentProgramModel.nextSteps.lookup t.executor = some t
  trace : c'.getTrace = c.getTrace ++ [t]
  layered : c'.currentProgramModel.Layered r₀ (runners ++ [c'.currentProgramModel.runnerCount])
  keeps : c.currentProgramModel.Keeps c.getTrace.length c'.currentProgramModel
  enabled : ∃ l, c'.currentProgramModel.getEnabledRunners = .ok l ∧
    new.enabledRunners = l.toFinset
  backtrack : new.backtrackSet = ∅
  done : new.doneSet = ∅
  asleep : ∀ q ∈ new.sleepSet, q ∈ back.sleepSet ∧ ∃ u,
    c'.currentProgramModel.nextSteps.lookup q = some u ∧
      areDependent config.dependencyRelation u t = false
  updated : dynamicallyUpdateBacktrackSets config c' (init ++ [back.leaving t, new]) = .ok stack'

section Expand

variable {r₀ : ℕ} {runners : List ℕ} {init : List StackItem} {back back₀ : StackItem}
  {rid : RunnerId} {t : Transition} {new : StackItem}

/-- The runner which is executed may have been marked before. -/
theorem leaving_markSearched (item : StackItem) (t : Transition) :
    (item.markSearched t.executor).leaving t = item.leaving t := by
  simp [StackItem.leaving, StackItem.markSearched, StackItem.insertIntoSleepSet,
    StackItem.setOutTransition]

theorem expansion_of_run (h : c.currentProgramModel.Layered r₀ runners)
    (hrid : rid < c.currentProgramModel.runnerCount)
    (hback : back₀ = back ∨ back₀ = back.markSearched rid)
    (hrun : (continueDporByExpandingTraceWith source config rid (init ++ [back₀])).run c =
      (.ok stack', c')) :
    ∃ t new, t.executor = rid ∧ Expansion config r₀ runners c init back t new stack' c' := by
  obtain ⟨hexecute, grown, hgrow, hupdate⟩ := continueDporByExpandingTraceWith_eq_ok hrun
  obtain ⟨hlayered, hkeeps, t, ht, htrace⟩ := executeRunner_layered h hrid hexecute
  have hexec : t.executor = rid := h.keyed rid t ht
  obtain ⟨init', s_n, t_n, cv, clocks, enabled, asleep, heq, hlast, -, -, -, henabled, hasleep,
    rfl⟩ := growStackAfterRunning_eq_ok hgrow
  obtain ⟨rfl, hs_n⟩ := List.append_inj' heq rfl
  obtain rfl := List.singleton_inj.mp hs_n
  rw [htrace, List.getLast?_concat] at hlast
  obtain rfl := Option.some.inj hlast
  have hleaving : back₀.leaving t = back.leaving t := by
    rcases hback with rfl | rfl
    · rfl
    · rw [← hexec, leaving_markSearched]
  have hsleep : back₀.sleepSet = back.sleepSet := by
    rcases hback with rfl | rfl
    · rfl
    · rfl
  refine ⟨t, _, hexec, ⟨hexec.symm ▸ ht, htrace, hlayered, hkeeps, ⟨enabled, henabled, rfl⟩, rfl, rfl,
    fun q hq => ?_, hleaving ▸ hupdate⟩⟩
  obtain ⟨hmem, hkept⟩ := ((filterM_eq_ok hasleep).2 q).mp (List.mem_toFinset.mp hq)
  obtain ⟨u, hu, hindependent⟩ := bind_eq_ok.mp hkept
  refine ⟨hsleep ▸ mem_inOrder.mp hmem, u, ?_, ?_⟩
  · unfold Coordinator.pendingTransitionFor at hu
    cases hnext : c'.currentProgramModel.nextSteps.lookup q with
    | none =>
      rw [hnext] at hu
      cases hu
    | some u' =>
      rw [hnext] at hu
      rw [Except.ok.inj hu]
  · simpa [pure, Except.pure] using hindependent

/-! #### Backtrack points -/

theorem StackItem.WellMarked.insert {item : StackItem} (h : item.WellMarked) {q : RunnerId}
    (hq : q ∈ item.enabledRunners) :
    (item.insertIntoBacktrackSetUnlessCompleted q).WellMarked ∧
      (item.insertIntoBacktrackSetUnlessCompleted q).enabledRunners = item.enabledRunners := by
  unfold insertIntoBacktrackSetUnlessCompleted doneSetContains
  by_cases hdone : q ∈ item.doneSet
  · rw [if_pos (decide_eq_true hdone)]
    exact ⟨h, rfl⟩
  · rw [if_neg (by simpa using hdone)]
    refine ⟨⟨Finset.insert_subset hq h.backtrack, fun r hr => ?_⟩, rfl⟩
    rcases Finset.mem_insert.mp hr with rfl | hr
    · exact hdone
    · exact h.disjoint r hr

theorem StackItem.WellMarked.insertBacktrackPoints {item : StackItem} (h : item.WellMarked)
    {e : List RunnerId} (he : ∀ q ∈ e, q ∈ item.enabledRunners) :
    (item.insertBacktrackPoints e).WellMarked := by
  have hfold : ∀ (l : List RunnerId) (item : StackItem), item.WellMarked →
      (∀ q ∈ l, q ∈ item.enabledRunners) →
      (l.foldl insertIntoBacktrackSetUnlessCompleted item).WellMarked := by
    intro l
    induction l with
    | nil => exact fun _ h _ => h
    | cons q l ih =>
      intro item h hl
      obtain ⟨hinsert, hsame⟩ := h.insert (hl q (List.mem_cons_self ..))
      refine ih _ hinsert fun r hr => ?_
      rw [hsame]
      exact hl r (List.mem_cons_of_mem _ hr)
  cases e with
  | nil =>
    refine hfold _ item h fun q hq => ?_
    exact mem_inOrder.mp (List.mem_filter.mp hq).1
  | cons q e =>
    rw [StackItem.insertBacktrackPoints]
    split_ifs
    · exact h
    · exact (h.insert (he q (List.mem_cons_self ..))).1

theorem runnersAhead_subset {S : List StackItem} {item : StackItem} {i : ℕ} {p : RunnerId}
    {e : List RunnerId} (h : runnersAhead S item i p = .ok e) :
    ∀ q ∈ e, q ∈ item.enabledRunners := by
  unfold runnersAhead at h
  obtain ⟨l, hl, h⟩ := bind_eq_ok.mp h
  intro q hq
  rw [← Except.ok.inj h] at hq
  have hmem := ((filterM_eq_ok hl).2 q).mp (List.mem_filter.mp hq).1
  exact mem_inOrder.mp hmem.1

theorem wellMarked_update (h : ∀ item ∈ stack, item.WellMarked)
    (hupdate : dynamicallyUpdateBacktrackSets config c stack = .ok stack') :
    ∀ item ∈ stack', item.WellMarked := by
  refine dynamicallyUpdateBacktrackSets_preserves (Q := fun S => ∀ item ∈ S, item.WellMarked)
    (fun {S S' _ _ i p _} hS hat => ?_) hupdate h
  unfold dynamicallyUpdateBacktrackSetsAtIndex at hat
  obtain ⟨pre_si, hpre, hat⟩ := bind_eq_ok.mp hat
  obtain ⟨race, -, hat⟩ := bind_eq_ok.mp hat
  cases race with
  | false =>
    obtain ⟨-, rfl⟩ := Prod.mk.inj (Except.ok.inj hat)
    exact hS
  | true =>
    obtain ⟨e, he, hat⟩ := bind_eq_ok.mp hat
    obtain ⟨-, rfl⟩ := Prod.mk.inj (Except.ok.inj hat)
    intro item hitem
    rcases List.mem_or_eq_of_mem_set hitem with hmem | rfl
    · exact hS item hmem
    · exact (hS _ (List.mem_of_getElem? (stackAt_eq_ok.mp hpre))).insertBacktrackPoints
        (runnersAhead_subset he)

/-- Updating the backtrack sets leaves the other parts of the items alone. -/
theorem exists_of_update
    (hupdate : dynamicallyUpdateBacktrackSets config c stack = .ok stack') {i : ℕ}
    {item' : StackItem} (hitem : stack'[i]? = some item') :
    ∃ item, stack[i]? = some item ∧
      item'.withoutBacktrackSet = item.withoutBacktrackSet := by
  have hmap := congrArg (·[i]?) (dynamicallyUpdateBacktrackSets_map hupdate)
  simp only [List.getElem?_map, hitem, Option.map_some] at hmap
  obtain ⟨item, hitem, heq⟩ := Option.map_eq_some_iff.mp hmap.symm
  exact ⟨item, hitem, heq.symm⟩

theorem eq_of_withoutBacktrackSet {item item' : StackItem}
    (h : item'.withoutBacktrackSet = item.withoutBacktrackSet) :
    item' = { item with backtrackSet := item'.backtrackSet } := by
  obtain ⟨⟩ := item
  obtain ⟨⟩ := item'
  simpa [StackItem.withoutBacktrackSet] using h

/-- The backtrack set is free to change as long as it is well marked. -/
theorem ItemInvariant.remark {p : Program} {i : ℕ} {item item' : StackItem} {hist : ItemHistory}
    (h : ItemInvariant p r₀ runners i item hist)
    (hsame : item'.withoutBacktrackSet = item.withoutBacktrackSet) (hmarked : item'.WellMarked) :
    ItemInvariant p r₀ runners i item' hist := by
  rw [eq_of_withoutBacktrackSet hsame] at hmarked ⊢
  exact ⟨h.layered, h.trace, h.keeps, h.count, h.enabled, hmarked, h.asleep, h.done, h.nodup,
    h.current, h.out⟩

/-- The item below the top is known as before when the program advances. -/
theorem ItemInvariant.advance {p p' : Program} {i : ℕ} {item : StackItem} {hist : ItemHistory}
    {m : ℕ} (h : ItemInvariant p r₀ runners i item hist) (hi : i < p.trace.length)
    (hlength : runners.length = p.trace.length + 1) (hkeeps : p.Keeps p.trace.length p')
    (htrace : p'.trace = p.trace ++ [t]) :
    ItemInvariant p' r₀ (runners ++ [m]) i item hist := by
  have htake : (runners ++ [m]).take (i + 1) = runners.take (i + 1) :=
    List.take_append_of_le_length (by omega)
  have hget : p'.trace[i]? = p.trace[i]? := by rw [htrace, List.getElem?_append_left hi]
  refine ⟨htake ▸ h.layered, ?_, h.keeps.trans (hkeeps.mono hi.le), ?_, h.enabled, h.marked,
    h.asleep, h.done, h.nodup, hget ▸ h.current, hget ▸ h.out⟩
  · rw [h.trace, htrace, List.take_append_of_le_length hi.le]
  · rw [List.getElem?_append_left (by omega), h.count]

/-- The item at the top, when the search leaves its state. -/
theorem ItemInvariant.leave {p p' : Program} {hist : ItemHistory} {m : ℕ}
    (h : ItemInvariant p r₀ runners p.trace.length back hist)
    (hlength : runners.length = p.trace.length + 1) (hkeeps : p.Keeps p.trace.length p')
    (htrace : p'.trace = p.trace ++ [t]) (hdone : t.executor ∉ back.doneSet) :
    ItemInvariant p' r₀ (runners ++ [m]) p.trace.length (back.leaving t) (hist.execute t) := by
  have htake : (runners ++ [m]).take (p.trace.length + 1) = runners.take (p.trace.length + 1) :=
    List.take_append_of_le_length hlength.ge
  have hnone : hist.current = none := by rw [h.current, List.getElem?_eq_none le_rfl]
  have hget : p'.trace[p.trace.length]? = some t := by rw [htrace, List.getElem?_concat_length]
  have hexecuted : hist.executed = hist.explored.map Prod.fst := by
    simp [ItemHistory.executed, hnone]
  have hexecuted' : (hist.execute t).executed = hist.explored.map Prod.fst ++ [t] := rfl
  have hnew : t.executor ∉ (hist.explored.map Prod.fst).map (·.executor) := by
    rw [← hexecuted]
    exact fun hmem => hdone ((h.done _).mpr hmem)
  refine ⟨htake ▸ h.layered, ?_, h.keeps.trans hkeeps, ?_, h.enabled, ⟨?_, fun q hq hmem => ?_⟩,
    Finset.insert_subset_insert _ h.asleep, fun q => ?_, ?_, hget.symm, fun u hu => ?_⟩
  · show hist.model.trace = _
    rw [h.trace, htrace, List.take_append_of_le_length le_rfl]
  · rw [List.getElem?_append_left (by omega)]
    exact h.count
  · exact (Finset.erase_subset _ _).trans h.marked.backtrack
  · have hq' : q ∈ back.backtrackSet.erase t.executor := hq
    have hmem' : q ∈ insert t.executor back.doneSet := hmem
    obtain ⟨hne, hq'⟩ := Finset.mem_erase.mp hq'
    exact h.marked.disjoint q hq' ((Finset.mem_insert.mp hmem').resolve_left hne)
  · show q ∈ insert t.executor back.doneSet ↔ _
    rw [Finset.mem_insert, h.done, hexecuted, hexecuted', List.map_append, List.mem_append, or_comm]
    simp
  · rw [hexecuted', List.map_append]
    refine List.Nodup.append (hexecuted ▸ h.nodup) (List.nodup_singleton _) ?_
    exact List.disjoint_singleton.mpr hnew
  · rw [hget] at hu
    exact congrArg TransitionPointer.valid (Option.some.inj hu)

/-- **Expanding the trace** keeps what the search keeps, when the runner has not been explored. -/
theorem StackInvariant.expand (h : StackInvariant r₀ runners c (init ++ [back]) hs)
    (hexpansion : Expansion config r₀ runners c init back t new stack' c')
    (hdone : t.executor ∉ back.doneSet) :
    StackInvariant r₀ (runners ++ [c'.currentProgramModel.runnerCount]) c' stack'
      (expandHistories hs t c'.currentProgramModel) := by
  have hlength : init.length = c.getTrace.length := by
    have hlength := h.length
    rw [List.length_append, List.length_singleton] at hlength
    omega
  have hcount : hs.length = init.length + 1 := by
    rw [h.histories, List.length_append, List.length_singleton]
  have hrunners : runners.length = c.getTrace.length + 1 := h.layered.length_runners
  have htrace : c'.currentProgramModel.trace = c.currentProgramModel.trace ++ [t] := hexpansion.trace
  -- the items of the grown stack, before the backtrack sets are updated
  have hgrown : ∀ (i : ℕ) (item : StackItem) (hist : ItemHistory),
      (init ++ [back.leaving t, new])[i]? = some item →
      (expandHistories hs t c'.currentProgramModel)[i]? = some hist →
      ItemInvariant c'.currentProgramModel r₀ (runners ++ [c'.currentProgramModel.runnerCount]) i
        item hist := by
    intro i item hist hitem hhist
    rcases (getElem?_expandHistories hcount).mp hhist with
      ⟨hi, hold⟩ | ⟨rfl, old, hold, rfl⟩ | ⟨rfl, rfl⟩
    · rw [List.getElem?_append_left hi] at hitem
      have hinvariant := h.items i item hist ((List.getElem?_append_left hi).trans hitem) hold
      exact hinvariant.advance (hlength ▸ hi) hrunners hexpansion.keeps htrace
    · rw [List.getElem?_append_right le_rfl, Nat.sub_self] at hitem
      obtain rfl := Option.some.inj hitem
      have hinvariant := h.items init.length back old (by simp) hold
      rw [hlength] at hinvariant ⊢
      exact hinvariant.leave hrunners hexpansion.keeps htrace hdone
    · rw [List.getElem?_append_right (Nat.le_add_right _ 1), Nat.add_sub_cancel_left] at hitem
      obtain rfl := Option.some.inj hitem
      have hlast : c'.currentProgramModel.trace.length = init.length + 1 := by
        rw [htrace, List.length_append, List.length_singleton, hlength]
        rfl
      have hnone : c'.currentProgramModel.trace[init.length + 1]? = none :=
        List.getElem?_eq_none hlast.le
      refine ⟨?_, ?_, .refl _ _, ?_, hexpansion.enabled, ⟨?_, ?_⟩, ?_, fun q => ?_, List.nodup_nil,
        hnone.symm, fun u hu => ?_⟩
      · rw [List.take_of_length_le (by rw [List.length_append, hrunners, List.length_singleton]; omega)]
        exact hexpansion.layered
      · rw [← hlast, List.take_length]
      · rw [hlength, ← hrunners, List.getElem?_concat_length]
      · exact hexpansion.backtrack ▸ Finset.empty_subset _
      · exact fun q hq => absurd hq (hexpansion.backtrack ▸ Finset.notMem_empty q)
      · exact hexpansion.done ▸ Finset.empty_subset _
      · simp [hexpansion.done, ItemHistory.executed]
      · rw [hnone] at hu
        cases hu
  have hgrownLength : (init ++ [back.leaving t, new]).length = init.length + 2 := by simp
  have hhistories : (expandHistories hs t c'.currentProgramModel).length = init.length + 2 := by
    rw [expandHistories, List.length_append, List.length_modify, hcount, List.length_singleton]
  have hupdated : stack'.length = init.length + 2 := by
    have hmap := congrArg List.length (dynamicallyUpdateBacktrackSets_map hexpansion.updated)
    rwa [List.length_map, List.length_map, hgrownLength] at hmap
  have hmarked : ∀ item ∈ init ++ [back.leaving t, new], item.WellMarked := by
    intro item hitem
    obtain ⟨i, hi⟩ := List.mem_iff_getElem?.mp hitem
    have hlt := (List.getElem?_eq_some_iff.mp hi).1
    obtain ⟨hist, hhist⟩ : ∃ hist, (expandHistories hs t c'.currentProgramModel)[i]? = some hist :=
      ⟨_, List.getElem?_eq_getElem (by omega)⟩
    exact (hgrown i item hist hi hhist).marked
  refine ⟨hexpansion.layered, ?_, hhistories.trans hupdated.symm, fun i item' hist hitem hhist => ?_⟩
  · rw [hupdated, hexpansion.trace, List.length_append, List.length_singleton, hlength]
  · obtain ⟨item, hitem', hsame⟩ := exists_of_update hexpansion.updated hitem
    exact (hgrown i item hist hitem' hhist).remark hsame
      (wellMarked_update hmarked hexpansion.updated item' (List.mem_of_getElem? hitem))

/-- The runners which the search has room for in the clocks are few. -/
theorem lt_of_continueDpor (h : c.currentProgramModel.Layered r₀ runners)
    (hrun : (continueDporByExpandingTraceWith source config rid stack).run c = (.ok stack', c')) :
    rid < maxTotalThreadsInProgram := by
  obtain ⟨hexecute, grown, hgrow, -⟩ := continueDporByExpandingTraceWith_eq_ok hrun
  obtain ⟨contents, u, c₁, next, s', -, hcallback, -, hnext, -, rfl⟩ := executeRunner_eq_ok hexecute
  obtain ⟨hlayered, -, -, -⟩ := callback_layered h hcallback
  obtain ⟨init', s_n, t_n, cv, clocks, enabled, asleep, -, hlast, -, -, hclocks, -, -, -⟩ :=
    growStackAfterRunning_eq_ok hgrow
  obtain rfl : next = t_n := by
    have hlast' : (c₁.currentProgramModel.trace ++ [next]).getLast? = some t_n := hlast
    rw [List.getLast?_concat] at hlast'
    exact Option.some.inj hlast'
  rw [hlayered.keyed rid next hnext] at hclocks
  unfold StackItem.withClockVector at hclocks
  by_contra hge
  rw [dif_neg hge] at hclocks
  cases hclocks

/-- The first enabled runner is one of them, or the largest id. -/
theorem getFirstEnabledRunner_cases (item : StackItem) :
    item.getFirstEnabledRunner ∈ item.enabledRunners ∨ item.getFirstEnabledRunner = runnerIdMax := by
  unfold StackItem.getFirstEnabledRunner
  induction item.enabledRunners using Finset.induction with
  | empty => exact .inr rfl
  | insert q enabled hq ih =>
    rw [Finset.fold_insert hq]
    rcases min_choice (id q) (enabled.fold min runnerIdMax id) with hmin | hmin
    · rw [hmin]
      exact .inl (Finset.mem_insert_self _ _)
    · rw [hmin]
      exact ih.imp_left (Finset.mem_insert_of_mem ·)

/-- Ids are of type `runner_id_t`, which is `uint16_t`. -/
theorem getFirstEnabledRunner_mem {item : StackItem} (h : item.enabledRunners ≠ ∅)
    (hfits : ∀ q ∈ item.enabledRunners, q ≤ runnerIdMax) :
    item.getFirstEnabledRunner ∈ item.enabledRunners := by
  rcases getFirstEnabledRunner_cases item with hmem | hmax
  · exact hmem
  · obtain ⟨q, hq⟩ := Finset.nonempty_iff_ne_empty.mpr h
    have hle : item.getFirstEnabledRunner ≤ q := (Finset.fold_min_le q).mpr (.inr ⟨q, hq, le_rfl⟩)
    have hsame : q = item.getFirstEnabledRunner := le_antisymm (hmax ▸ hfits q hq) hle
    exact hsame ▸ hq

/-! ### Going back -/

/-- The item at depth `i` when the search goes back to depth `n`. -/
theorem ItemInvariant.restore {p p' : Program} {i n : ℕ} {item : StackItem} {hist : ItemHistory}
    (h : ItemInvariant p r₀ runners i item hist) (hi : i < n) (hkeeps : p.Keeps n p')
    (htrace : p'.trace = p.trace.take n) :
    ItemInvariant p' r₀ (runners.take (n + 1)) i item hist := by
  have htake : (runners.take (n + 1)).take (i + 1) = runners.take (i + 1) := by
    rw [List.take_take, min_eq_left (by omega)]
  have hget : p'.trace[i]? = p.trace[i]? := by rw [htrace, List.getElem?_take_of_lt hi]
  refine ⟨htake.symm ▸ h.layered, ?_, h.keeps.trans (hkeeps.mono hi.le), ?_, h.enabled, h.marked,
    h.asleep, h.done, h.nodup, hget.symm ▸ h.current, hget.symm ▸ h.out⟩
  · rw [h.trace, htrace, List.take_take, min_eq_left hi.le]
  · rw [List.getElem?_take_of_lt (by omega), h.count]

/-- The item which the search comes back to. -/
theorem ItemInvariant.comeBack {p p' : Program} {n : ℕ} {item : StackItem} {hist : ItemHistory}
    (h : ItemInvariant p r₀ runners n item hist) (hkeeps : p.Keeps n p')
    (htrace : p'.trace = p.trace.take n) {above : List (StackItem × ItemHistory)}
    (habove : above = [] → hist.current = none) :
    ItemInvariant p' r₀ (runners.take (n + 1)) n item (hist.comeBack above) := by
  have hnone : p'.trace[n]? = none := by
    rw [htrace, List.getElem?_eq_none]
    rw [List.length_take]
    exact min_le_left _ _
  have hexecuted : (hist.comeBack above).executed = hist.executed :=
    (List.append_nil _).trans (ItemHistory.map_branches habove)
  refine ⟨?_, ?_, h.keeps.trans hkeeps, ?_, h.enabled, h.marked, h.asleep, fun q => ?_, ?_, hnone.symm,
    fun t ht => ?_⟩
  · rw [List.take_take, min_self]
    exact h.layered
  · rw [htrace, List.take_take, min_self]
    exact h.trace
  · rw [List.getElem?_take_of_lt (Nat.lt_succ_self n)]
    exact h.count
  · rw [hexecuted]
    exact h.done q
  · rw [hexecuted]
    exact h.nodup
  · rw [hnone] at ht
    cases ht

/-- No transition has been executed from the item with nothing above it. -/
theorem StackInvariant.current_eq_none {n : ℕ} {item : StackItem} {hist : ItemHistory}
    (h : StackInvariant r₀ runners c stack hs) (hitem : stack[n]? = some item)
    (hhist : hs[n]? = some hist) (hnil : (stack.zip hs).drop (n + 1) = []) :
    hist.current = none := by
  have hlength := List.drop_eq_nil_iff.mp hnil
  rw [List.length_zip, h.histories, min_self, h.length] at hlength
  rw [(h.items n item hist hitem hhist).current]
  exact List.getElem?_eq_none (Nat.le_of_succ_le_succ hlength)

/-- **Going back**, other than to the initial state, keeps what the search keeps. -/
theorem StackInvariant.goBack (h : StackInvariant r₀ runners c stack hs)
    (hpre : init ++ [back] <+: stack) (hinit : init ≠ [])
    (hrun : (returnToDepth source init.length).run c = (.ok (), c')) :
    StackInvariant r₀ (runners.take (init.length + 1)) c' (init ++ [back])
      (backHistories stack hs (init.length + 1)) := by
  obtain ⟨hrestore, hle⟩ := returnToDepth_restores hrun
  obtain ⟨hlayered, hkeeps, -, htrace, -⟩ :=
    h.layered.restore (List.length_pos_iff.mpr hinit) hle hrestore
  have hlt : init.length < hs.length := by
    have hlength := hpre.length_le
    rw [List.length_append, List.length_singleton, ← h.histories] at hlength
    omega
  refine ⟨hlayered, ?_, ?_, fun i item hist hitem hhist => ?_⟩
  · have hlength : c'.getTrace.length = (c.getTrace.take init.length).length :=
      congrArg List.length htrace
    rw [hlength, List.length_take, min_eq_left hle, List.length_append]
    rfl
  · rw [backHistories, List.length_modify, List.length_take, List.length_append,
      List.length_singleton]
    omega
  · have hold := getElem?_of_prefix hpre hitem
    rcases (getElem?_backHistories hlt).mp hhist with ⟨hi, hkept⟩ | ⟨rfl, old, hkept, rfl⟩
    · exact (h.items i item hist hold hkept).restore hi hkeeps htrace
    · have hitem := h.items _ item old hold hkept
      exact hitem.comeBack hkeeps htrace fun hnil => h.current_eq_none hold hkept hnil

/-- The search at its start. -/
theorem stackInvariant_start (hc : c.Initial) (hstart : start c = .ok s) :
    StackInvariant c.currentProgramModel.runnerCount [c.currentProgramModel.runnerCount]
      s.coordinator s.stack [{ model := c.currentProgramModel }] := by
  obtain ⟨enabled, henabled, hs⟩ := bind_eq_ok.mp hstart
  obtain rfl := Except.ok.inj hs
  have hlayered := hc.layered henabled
  have htrace : c.currentProgramModel.trace = [] := hc.trace
  refine ⟨hlayered, ?_, rfl, fun i item hist hitem hhist => ?_⟩
  · show 1 = c.currentProgramModel.trace.length + 1
    rw [htrace]
    rfl
  · obtain rfl : i = 0 := by
      have hlt : i < 1 := (List.getElem?_eq_some_iff.mp hitem).1
      omega
    obtain rfl := Option.some.inj hitem
    obtain rfl := Option.some.inj hhist
    refine ⟨hlayered, htrace, .refl _ _, rfl, ⟨enabled, henabled, rfl⟩,
      ⟨Finset.empty_subset _, fun q hq => absurd hq (Finset.notMem_empty q)⟩, Finset.empty_subset _,
      fun q => ?_, List.nodup_nil, ?_, fun t ht => ?_⟩
    · simp [ItemHistory.executed]
    · rw [htrace]
      rfl
    · rw [htrace] at ht
      cases ht

end Expand

/-! ### Runs -/

/-- What the search keeps from step to step. -/
structure SearchInvariant (r₀ : ℕ) (s : Search) (hs : List ItemHistory) : Prop where
  stack : ∃ runners, StackInvariant r₀ runners s.coordinator s.stack hs
  /-- While the trace is explored, nothing has been executed from the item at the top. -/
  fresh : s.phase = .exploration → ∀ init back, s.stack = init ++ [back] → back.doneSet = ∅

/-- The item at the top has a history. -/
theorem StackInvariant.last {r₀ : ℕ} {runners : List ℕ} {init : List StackItem} {back : StackItem}
    (h : StackInvariant r₀ runners c stack hs) (heq : stack = init ++ [back]) :
    ∃ hist, ItemInvariant c.currentProgramModel r₀ runners c.getTrace.length back hist := by
  have hlength := h.length
  rw [heq, List.length_append, List.length_singleton] at hlength
  have hlt : init.length < hs.length := by
    rw [h.histories, heq, List.length_append, List.length_singleton]
    omega
  obtain ⟨hist, hhist⟩ : ∃ hist, hs[init.length]? = some hist :=
    ⟨_, List.getElem?_eq_getElem hlt⟩
  refine ⟨hist, ?_⟩
  rw [← Nat.add_right_cancel hlength]
  exact h.items init.length back hist (by rw [heq]; simp) hhist

/-- The runners enabled at the top are known to the model. -/
theorem StackInvariant.lt_runnerCount {r₀ : ℕ} {runners : List ℕ} {init : List StackItem}
    {back : StackItem} {rid : RunnerId} (h : StackInvariant r₀ runners c stack hs)
    (heq : stack = init ++ [back]) (hrid : rid ∈ back.enabledRunners) :
    rid < c.currentProgramModel.runnerCount := by
  obtain ⟨hist, hitem⟩ := h.last heq
  obtain ⟨l, hl, henabled⟩ := hitem.enabled
  rw [henabled, List.mem_toFinset] at hrid
  obtain ⟨t, ht, -⟩ := ((Program.getEnabledRunners_eq_ok hl).2 rid).mp hrid
  exact (hitem.layered.known rid t ht).trans_le hitem.keeps.count

theorem mem_of_backtrackSetPopFirst {item item' : StackItem} {rid : RunnerId}
    (h : item.backtrackSetPopFirst = .ok (rid, item')) : rid ∈ item.backtrackSet := by
  unfold StackItem.backtrackSetPopFirst at h
  cases hmin : item.backtrackSet.min with
  | top =>
    rw [hmin] at h
    cases h
  | coe q =>
    rw [hmin] at h
    obtain ⟨rfl, -⟩ := Prod.mk.inj (Except.ok.inj h)
    exact Finset.mem_of_min hmin

/-- A call which expands the trace executes an enabled runner, from which the search has not
executed it before. -/
theorem SearchInvariant.expands {r₀ : ℕ} (h : SearchInvariant r₀ s hs)
    (hexpands : s.Expands source config stack c') :
    ∃ runners init back t new, s.stack = init ++ [back] ∧
      StackInvariant r₀ runners s.coordinator s.stack hs ∧
      t.executor ∈ back.enabledRunners ∧ t.executor ∉ back.doneSet ∧
      Expansion config r₀ runners s.coordinator init back t new stack c' := by
  obtain ⟨runners, hstack⟩ := h.stack
  cases hexpands with
  | explore init back hphase heq henabled hrun =>
    have hlt := lt_of_continueDpor hstack.layered hrun
    have hmem : back.getFirstEnabledRunner ∈ back.enabledRunners :=
      (getFirstEnabledRunner_cases back).resolve_right fun hmax => by
        rw [hmax] at hlt
        exact absurd hlt (by decide)
    rw [heq] at hrun
    obtain ⟨t, new, hexec, hexpansion⟩ :=
      expansion_of_run hstack.layered (hstack.lt_runnerCount heq hmem) (.inl rfl) hrun
    refine ⟨runners, init, back, t, new, heq, hstack, hexec.symm ▸ hmem, ?_, hexpansion⟩
    rw [h.fresh hphase init back heq]
    exact Finset.notMem_empty _
  | follow init back rid hphase heq hrid hrun =>
    obtain ⟨hist, hitem⟩ := hstack.last heq
    have hmem := hitem.marked.backtrack hrid
    obtain ⟨t, new, hexec, hexpansion⟩ :=
      expansion_of_run hstack.layered (hstack.lt_runnerCount heq hmem) (.inr rfl) hrun
    exact ⟨runners, init, back, t, new, heq, hstack, hexec.symm ▸ hmem,
      hexec.symm ▸ hitem.marked.disjoint rid hrid, hexpansion⟩

/-- The item which the search has just pushed. -/
theorem Expansion.last {r₀ : ℕ} {runners : List ℕ} {init : List StackItem} {back new : StackItem}
    {t : Transition} (h : Expansion config r₀ runners c init back t new stack' c') {init' : List StackItem}
    {back' : StackItem} (heq : stack' = init' ++ [back']) : back'.doneSet = ∅ := by
  have hmap := dynamicallyUpdateBacktrackSets_map h.updated
  have hpush : init ++ [back.leaving t, new] = (init ++ [back.leaving t]) ++ [new] := by simp
  rw [heq, hpush, List.map_append, List.map_append] at hmap
  have hlast := List.singleton_inj.mp (List.append_inj' hmap rfl).2
  have hdone := congrArg StackItem.doneSet hlast
  exact hdone.trans h.done

/-- A step which continues the search keeps what the search keeps. -/
theorem SearchInvariant.step {r₀ : ℕ} (h : SearchInvariant r₀ s hs) (hkept : RootKept s)
    (hstep : Steps source config callbacks s s') :
    (∀ t, s.Expands source config s'.stack s'.coordinator →
      s'.coordinator.getTrace.getLast? = some t →
      SearchInvariant r₀ s' (expandHistories hs t s'.coordinator.currentProgramModel)) ∧
    (s'.phase = .backtrack →
      SearchInvariant r₀ s' (backHistories s.stack hs s'.stack.length)) := by
  refine ⟨fun t hexpands ht => ?_, fun hphase => ?_⟩
  · obtain ⟨runners, init, back, t', new, heq, hstack, -, hdone, hexpansion⟩ := h.expands hexpands
    rw [hexpansion.trace, List.getLast?_concat] at ht
    obtain rfl := Option.some.inj ht
    exact ⟨⟨_, (heq ▸ hstack).expand hexpansion hdone⟩, fun _ init' back' heq' =>
      hexpansion.last heq'⟩
  · obtain ⟨runners, hstack⟩ := h.stack
    cases hstep.move with
    | explore _ _ hphase' _ _ _ _ => exact absurd (hphase.symm.trans hphase'.2) (by decide)
    | finish hphase' _ _ _ => exact absurd (hphase.symm.trans hphase'.2) (by decide)
    | follow _ _ _ hphase' _ _ _ _ => exact absurd (hphase.symm.trans hphase'.2) (by decide)
    | goBack init back _ hpop hrun hs' =>
      have hinit := hkept.searched.ne_nil hpop
      have hlen : init.length ≠ 0 := fun hzero => hinit (List.length_eq_zero_iff.mp hzero)
      have hafter : afterReturn init.length back = back := if_neg hlen
      have hback := hstack.goBack (hpop ▸ popExplored_prefix s.stack) hinit hrun
      rw [hafter] at hs'
      have hlength : s'.stack.length = init.length + 1 := by
        rw [hs', List.length_append, List.length_singleton]
      refine ⟨⟨runners.take (init.length + 1), ?_⟩, fun hexploration =>
        absurd (hphase.symm.trans hexploration) (by decide)⟩
      rw [hlength, hs']
      exact hback

/-- A search with an empty stack has returned. -/
theorem Search.Steps.stack_ne_nil (h : Steps source config callbacks s s') : s.stack ≠ [] := by
  intro hnil
  unfold Steps Search.step at h
  rw [hnil] at h
  cases h

/-- **What the search keeps, it keeps in every run**, until the stack is empty. -/
theorem searchInvariant_of_traced (hc : c.Initial) (h : Traced source config callbacks c s hs)
    (hne : s.stack ≠ []) : SearchInvariant c.currentProgramModel.runnerCount s hs := by
  induction h with
  | start hstart =>
    refine ⟨⟨_, stackInvariant_start hc hstart⟩, fun _ init back heq => ?_⟩
    obtain ⟨enabled, -, hs⟩ := bind_eq_ok.mp hstart
    obtain rfl := Except.ok.inj hs
    have hone : [] ++ [{ cv := .empty, enabledRunners := enabled.toFinset }] = init ++ [back] := heq
    obtain ⟨-, hback⟩ := List.append_inj' hone rfl
    exact (List.singleton_inj.mp hback) ▸ rfl
  | expand h hstep hexpands ht ih =>
    exact ((ih hstep.stack_ne_nil).step (rootKept_of_reachable h.reachable) hstep).1 _ hexpands ht
  | back h hstep hphase ih =>
    exact ((ih hstep.stack_ne_nil).step (rootKept_of_reachable h.reachable) hstep).2 hphase
  | finish _ _ hstack _ => exact absurd hstack hne

theorem Search.Expands.stack_ne_nil (h : s.Expands source config stack c') : s.stack ≠ [] := by
  cases h with
  | explore init back _ heq =>
    rw [heq]
    exact List.append_ne_nil_of_right_ne_nil _ (List.cons_ne_nil _ _)
  | follow init back rid _ heq =>
    rw [heq]
    exact List.append_ne_nil_of_right_ne_nil _ (List.cons_ne_nil _ _)

/-! ### Only enabled runners are executed -/

/-- The pending transition of the runner is enabled in the current state. -/
def Program.EnabledNow (p : Program) (q : RunnerId) : Prop :=
  ∃ t, p.nextSteps.lookup q = some t ∧ t.isEnabledIn p.stateSeq.toState = .ok true

/-- What the items cache is what the model says. -/
theorem ItemInvariant.mem_enabledRunners_iff {p : Program} {r₀ : ℕ} {runners : List ℕ} {i : ℕ}
    {item : StackItem} {hist : ItemHistory} (h : ItemInvariant p r₀ runners i item hist)
    (hp : p.Layered r₀ runners) (hi : i ≤ p.trace.length) {q : RunnerId} :
    q ∈ item.enabledRunners ↔ p.EnabledAtDepth i q := by
  obtain ⟨l, hl, henabled⟩ := h.enabled
  have hlength : hist.model.trace.length = i := by
    rw [h.trace, List.length_take, min_eq_left hi]
  rw [henabled, List.mem_toFinset]
  have hiff := hp.mem_enabledRunners_iff h.layered (hlength.symm ▸ h.keeps)
    (hlength.symm ▸ h.count) hl (q := q)
  rwa [hlength] at hiff

theorem Program.Layered.enabledNow_iff {p : Program} {r₀ : ℕ} {runners : List ℕ}
    (h : p.Layered r₀ runners) {q : RunnerId} :
    p.EnabledNow q ↔ p.EnabledAtDepth p.trace.length q := by
  unfold EnabledNow EnabledAtDepth
  rw [pendingAtDepth_length, h.stateAtDepth_length]
  simp

/-- **Only enabled runners are scheduled.** A runner which the search executes is enabled in the
model at that moment, which accepts whatever transition the runner reports. A runner which is
executed again when the search goes back was enabled at its depth. Runner ids are of the type
`runner_id_t`, whose largest value is `runnerIdMax`. -/
theorem executes_enabled {site : Site} {rid : RunnerId} {now : Search} (hc : c.Initial)
    (h : Search.Reachable source config callbacks c s)
    (hfits : ∀ q t, s.coordinator.currentProgramModel.nextSteps.lookup q = some t → q ≤ runnerIdMax)
    (hexecutes : Executes source config callbacks s site rid now) :
    (site ≠ .replay → now.coordinator.currentProgramModel.EnabledNow rid ∧
      ∀ contents t c₁,
        (callback rid contents).run (now.coordinator.afterProcess rid) = (.ok t, c₁) →
        ∃ program, c₁.currentProgramModel.modelExecutionOf rid t = .ok program) ∧
    (site = .replay → now.coordinator.currentProgramModel.EnabledAtDepth
      now.coordinator.executed.length rid) := by
  obtain ⟨hs, htraced⟩ := h.traced
  have hkept := rootKept_of_reachable h
  have hinvariant : s.stack ≠ [] → SearchInvariant c.currentProgramModel.runnerCount s hs :=
    searchInvariant_of_traced hc htraced
  have htop : ∀ {init back rid}, s.stack = init ++ [back] → rid ∈ back.enabledRunners →
      s.coordinator.currentProgramModel.EnabledNow rid ∧ ∀ contents t c₁,
        (callback rid contents).run (s.coordinator.afterProcess rid) = (.ok t, c₁) →
        ∃ program, c₁.currentProgramModel.modelExecutionOf rid t = .ok program := by
    intro init back rid heq hrid
    obtain ⟨runners, hstack⟩ := (hinvariant (by rw [heq]; simp)).stack
    obtain ⟨hist, hitem⟩ := hstack.last heq
    have henabled := (hitem.mem_enabledRunners_iff hstack.layered le_rfl).mp hrid
    exact ⟨hstack.layered.enabledNow_iff.mpr henabled, fun contents t c₁ hcallback =>
      modelExecutionOf_of_enabled hstack.layered henabled hcallback⟩
  cases hexecutes with
  | @exploration init back hphase heq hnonempty hlimit =>
    refine ⟨fun _ => htop heq (getFirstEnabledRunner_mem hnonempty fun q hq => ?_), fun hsite => by
      cases hsite⟩
    obtain ⟨runners, hstack⟩ := (hinvariant (by rw [heq]; simp)).stack
    obtain ⟨hist, hitem⟩ := hstack.last heq
    obtain ⟨t, ht, -⟩ :=
      hstack.layered.enabledNow_iff.mpr ((hitem.mem_enabledRunners_iff hstack.layered le_rfl).mp hq)
    exact hfits q t ht
  | @backtracked init back back' rid hphase heq hpop =>
    refine ⟨fun _ => ?_, fun hsite => by cases hsite⟩
    obtain ⟨runners, hstack⟩ := (hinvariant (by rw [heq]; simp)).stack
    obtain ⟨hist, hitem⟩ := hstack.last heq
    exact htop heq (hitem.marked.backtrack (mem_of_backtrackSetPopFirst hpop))
  | @replay init init' back back' s₁ pre post rid hphase heq hnone hcomplete hpop hrestore hlength
      htrace hanswers =>
    refine ⟨fun hsite => absurd rfl hsite, fun _ => ?_⟩
    obtain ⟨-, hcoordinator, hstack₁⟩ := completeTrace_eq_ok hcomplete
    rw [hstack₁] at hpop
    rw [hcoordinator] at hrestore hlength htrace ⊢
    obtain ⟨runners, hstack⟩ := (hinvariant (by rw [heq]; simp)).stack
    have hle : init.length ≤ s.coordinator.getTrace.length := by
      have htake : (s.coordinator.restored init.length).getTrace =
          s.coordinator.getTrace.take init.length := rfl
      rw [htake, List.length_take] at hlength
      omega
    obtain ⟨hlayered, -, -, -, -⟩ := hstack.layered.restore
      (List.length_pos_iff.mpr (hkept.searched.ne_nil hpop)) hle (Prod.ext rfl hrestore)
    -- the runner has executed the transition of the trace at this position
    obtain ⟨t, ht, hexec⟩ : ∃ t, (s.coordinator.restored init.length).getTrace[pre.length]? = some t ∧
        t.executor = rid := by
      have hget := congrArg (·[pre.length]?) htrace
      simp only [List.getElem?_map, List.getElem?_append_right le_rfl, Nat.sub_self,
        List.getElem?_cons_zero] at hget
      exact Option.map_eq_some_iff.mp hget
    exact hexec ▸ hlayered.executable pre.length t ht

/-- The search of a program at `main`, at its start. -/
def Search.atMain : Search where
  coordinator := .atMain
  stack := [{ cv := .empty, enabledRunners := {0} }]

/-- Thread `0` posts the semaphore, then both threads lock the mutex and exit. -/
def racing : ProcessSource := fun executed p =>
  if p = 0 ∧ executed.count 0 = 0 then .ok (.mutexLock 100 false) else .ok .threadExit

def atTwoRacing : Coordinator :=
  ⟨.ofState (.twoThreads (.mutex ⟨.unlocked, 100, ridInvalid⟩) (.semaphore (.ofCount 0)))
      ((Finmap.singleton 0 ⟨0, .semPost 3⟩).insert 1 ⟨1, .mutexLock 2⟩),
    (Finmap.singleton 100 2).insert 101 3, []⟩

theorem initial_atTwoRacing : atTwoRacing.Initial := Coordinator.initial_twoThreads _ rfl rfl _

/-- The search of this target after some steps. -/
def searchOfTwoRacing : ℕ → Search
  | 0 => { coordinator := atTwoRacing, stack := [{ cv := .empty, enabledRunners := {0, 1} }] }
  | n + 1 =>
    match (searchOfTwoRacing n).step racing {} {.traceCompleted} with
    | .continues s => s
    | _ => searchOfTwoRacing n

theorem steps_searchOfTwoRacing : ∀ n < 6, Steps racing {} {.traceCompleted}
    (searchOfTwoRacing n) (searchOfTwoRacing (n + 1))
  | 0, _ | 1, _ | 2, _ | 3, _ | 4, _ | 5, _ => by rfl

theorem reachable_searchOfTwoRacing (n : ℕ) (hn : n ≤ 6) :
    Search.Reachable racing {} {.traceCompleted} atTwoRacing (searchOfTwoRacing n) := by
  refine ⟨searchOfTwoRacing 0, by rfl, ?_⟩
  induction n with
  | zero => exact .refl
  | succ n ih => exact (ih (by omega)).tail (steps_searchOfTwoRacing n (by omega))

/-- When the search has gone back to where both threads could lock the mutex, it executes thread
`1`, which is enabled there. -/
theorem executes_enabled_racing : ∃ now : Search,
    Executes racing {} {.traceCompleted} (searchOfTwoRacing 3) .backtracked 1 now ∧
      now.coordinator.currentProgramModel.EnabledNow 1 := by
  have hlast : (searchOfTwoRacing 3).stack.getLast?.map
      (fun back => back.backtrackSetPopFirst.map (·.1)) = some (.ok 1) := by rfl
  obtain ⟨back, hback, hpop⟩ := Option.map_eq_some_iff.mp hlast
  obtain ⟨init, hstack⟩ := List.getLast?_eq_some_iff.mp hback
  cases hfirst : back.backtrackSetPopFirst with
  | error e =>
    rw [hfirst] at hpop
    cases hpop
  | ok first =>
    obtain ⟨rid, back'⟩ := first
    rw [hfirst] at hpop
    obtain rfl : rid = 1 := Except.ok.inj hpop
    have hexecutes : Executes racing {} {.traceCompleted} (searchOfTwoRacing 3) .backtracked 1
        { searchOfTwoRacing 3 with stack := init ++ [back'] } := .backtracked rfl hstack hfirst
    refine ⟨_, hexecutes, ((executes_enabled initial_atTwoRacing
      (reachable_searchOfTwoRacing 3 (by omega)) (fun q t ht => ?_) hexecutes).1 (by decide)).1⟩
    have hkeys : (searchOfTwoRacing 3).coordinator.currentProgramModel.nextSteps.keys = {0, 1} := by
      decide
    have hq := Finmap.mem_keys.mpr (Finmap.mem_of_lookup_eq_some ht)
    rw [hkeys, Finset.mem_insert, Finset.mem_singleton] at hq
    rcases hq with rfl | rfl <;> decide

/-! ### The stack -/

/-- **The stack of the search.** Whenever the trace has been expanded, the stack has an item for
each depth of the trace and one for the current state. The items below the top point to the
transitions of the trace. Each item holds the runners which were enabled when the model was at its
depth, and which are enabled there as far as the model remembers; runners to be explored are
enabled ones which have not been, explored ones are asleep, and no runner has been executed twice
from the item. -/
theorem stack_of_expands (hc : c.Initial) (h : Traced source config callbacks c s hs)
    (hexpands : s.Expands source config stack c') :
    ∃ t, c'.getTrace.getLast? = some t ∧ stack.length = c'.getTrace.length + 1 ∧
      (expandHistories hs t c'.currentProgramModel).length = stack.length ∧
      ∀ (i : ℕ) (item : StackItem) (hist : ItemHistory), stack[i]? = some item →
        (expandHistories hs t c'.currentProgramModel)[i]? = some hist →
        (∀ u, c'.getTrace[i]? = some u → item.outTransition = .valid u) ∧
        (hist.model.trace = c'.getTrace.take i ∧ ∃ l, hist.model.getEnabledRunners = .ok l ∧
          item.enabledRunners = l.toFinset) ∧
        (∀ q, q ∈ item.enabledRunners ↔ c'.currentProgramModel.EnabledAtDepth i q) ∧
        (∀ q ∈ item.backtrackSet, q ∈ item.enabledRunners ∧ q ∉ item.doneSet) ∧
        item.doneSet ⊆ item.sleepSet ∧ (hist.executed.map (·.executor)).Nodup := by
  have hinvariant := searchInvariant_of_traced hc h hexpands.stack_ne_nil
  obtain ⟨runners, init, back, t, new, heq, hstack, -, hdone, hexpansion⟩ :=
    hinvariant.expands hexpands
  have hexpanded := (heq ▸ hstack).expand hexpansion hdone
  refine ⟨t, by rw [hexpansion.trace, List.getLast?_concat], hexpanded.length, hexpanded.histories,
    fun i item hist hitem hhist => ?_⟩
  have hinv := hexpanded.items i item hist hitem hhist
  have hi : i ≤ c'.getTrace.length := by
    have hlt := (List.getElem?_eq_some_iff.mp hitem).1
    rw [hexpanded.length] at hlt
    omega
  exact ⟨hinv.out, ⟨hinv.trace, hinv.enabled⟩, fun q => hinv.mem_enabledRunners_iff hexpanded.layered hi,
    fun q hq => ⟨hinv.marked.backtrack hq, hinv.marked.disjoint q hq⟩, hinv.asleep, hinv.nodup⟩

/-- Every item has a history when the trace has been expanded. -/
theorem exists_history_of_expands (hc : c.Initial) (h : Traced source config callbacks c s hs)
    (hexpands : s.Expands source config stack c') {t : Transition}
    (ht : c'.getTrace.getLast? = some t) {i : ℕ} (hi : i < stack.length) :
    ∃ hist, (expandHistories hs t c'.currentProgramModel)[i]? = some hist := by
  obtain ⟨runners, init, back, u, new, heq, hstack, -, hdone, hexpansion⟩ :=
    (searchInvariant_of_traced hc h hexpands.stack_ne_nil).expands hexpands
  rw [hexpansion.trace, List.getLast?_concat] at ht
  obtain rfl := Option.some.inj ht
  have hexpanded := (heq ▸ hstack).expand hexpansion hdone
  exact ⟨_, List.getElem?_eq_getElem (hi.trans_eq hexpanded.histories.symm)⟩

theorem expands_searchOfTwoRacing : (searchOfTwoRacing 3).Expands racing {}
    (searchOfTwoRacing 4).stack (searchOfTwoRacing 4).coordinator := by
  have hphase : (searchOfTwoRacing 3).phase = .backtrack := by rfl
  cases (steps_searchOfTwoRacing 3 (by omega)).move with
  | explore _ _ hphase' _ _ _ _ => cases hphase.symm.trans hphase'.1
  | finish hphase' _ _ _ => cases hphase.symm.trans hphase'.1
  | goBack _ _ hphase' _ _ _ => cases hphase.symm.trans hphase'.1
  | follow init back rid hphase' hstack hrid _ hrun =>
    exact .follow init back rid hphase hstack hrid hrun

/-- After the execution of thread `1`, the item below the top has thread `0` asleep, which has been
executed from there before, and points to the transition of thread `1`. -/
theorem stack_of_expands_racing : ∃ item, (searchOfTwoRacing 4).stack[1]? = some item ∧
    (searchOfTwoRacing 4).stack.length = 3 ∧ item.outTransition = .valid ⟨1, .mutexLock 2⟩ ∧
    0 ∈ item.sleepSet ∧
    ∀ q, q ∈ item.enabledRunners ↔
      (searchOfTwoRacing 4).coordinator.currentProgramModel.EnabledAtDepth 1 q := by
  obtain ⟨hs, htraced⟩ := (reachable_searchOfTwoRacing 3 (by omega)).traced
  obtain ⟨t, ht, hlength, -, hitems⟩ :=
    stack_of_expands initial_atTwoRacing htraced expands_searchOfTwoRacing
  have htrace : (searchOfTwoRacing 4).coordinator.getTrace =
      [⟨0, .semPost 3⟩, ⟨1, .mutexLock 2⟩] := by rfl
  have hdone : (searchOfTwoRacing 4).stack[1]?.map (fun item => decide (0 ∈ item.doneSet)) =
      some true := by rfl
  obtain ⟨item, hitem, hzero⟩ := Option.map_eq_some_iff.mp hdone
  obtain ⟨hist, hhist⟩ := exists_history_of_expands initial_atTwoRacing htraced
    expands_searchOfTwoRacing ht (List.getElem?_eq_some_iff.mp hitem).1
  rw [htrace] at hlength
  obtain ⟨hout, -, henabled, -, hasleep, -⟩ := hitems 1 item hist hitem hhist
  exact ⟨item, hitem, hlength, hout _ (by rw [htrace]; rfl), hasleep (of_decide_eq_true hzero),
    henabled⟩

end McMini
