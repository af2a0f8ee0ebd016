import McMini.Properties.ExploredSubtrees

/-!
# Sleep sets

A runner sleeps in an item when the transition it has pending there has been explored already,
from the item itself or from an earlier one, and commutes with all that has been executed in
between: executing it would lead to states which have been seen. The search does not say so. It
inserts a runner when it is executed from the item, hands the set on to the next item, and drops
what depends on the transition in between, comparing the transitions which are pending after it.
`sleepSet_explored` is the meaning of the sets, in terms of the histories of the items.
-/

namespace McMini

open Search Foundation

variable {source : ProcessSource} {config : Configuration} {callbacks : Finset Callback}
  {c c' : Coordinator} {s s' : Search} {hs : List ItemHistory} {stack stack' : List StackItem}

/-- The transition `t`, which was pending for the runner when the model was at depth `n`, has been
executed from the item at depth `k`, where it was pending too, and is independent of what has been
executed from there to depth `n`. If the search is still busy with it, `k` is `n`. -/
structure ExploredAt (config : Configuration) (tr : List Transition) (hs : List ItemHistory)
    (n : ℕ) (hist : ItemHistory) (q : RunnerId) (k : ℕ) (hist_k : ItemHistory) (t : Transition) :
    Prop where
  le : k ≤ n
  history : hs[k]? = some hist_k
  pending : hist.model.nextSteps.lookup q = some t
  earlier : hist_k.model.nextSteps.lookup q = some t
  explored : t ∈ hist_k.explored.map Prod.fst ∨ k = n ∧ hist_k.current = some t
  independent : ∀ j u, k ≤ j → j < n → tr[j]? = some u →
    areDependent config.dependencyRelation t u = false

/-- Everything that sleeps has been explored. -/
def SleepInvariant (config : Configuration) (tr : List Transition) (stack : List StackItem)
    (hs : List ItemHistory) : Prop :=
  ∀ (n : ℕ) (item : StackItem) (hist : ItemHistory) (q : RunnerId), stack[n]? = some item →
    hs[n]? = some hist → q ∈ item.sleepSet →
    ∃ k hist_k t, ExploredAt config tr hs n hist q k hist_k t

section Step

variable {r₀ : ℕ} {runners : List ℕ} {init : List StackItem} {back new : StackItem}
  {t : Transition}

/-- What is known below the top stays known. -/
theorem ExploredAt.mono {tr tr' : List Transition} {hs hs' : List ItemHistory} {n k : ℕ}
    {hist hist_k : ItemHistory} {q : RunnerId} {t : Transition}
    (h : ExploredAt config tr hs n hist q k hist_k t)
    (hhistories : ∀ j hist, j ≤ n → hs[j]? = some hist → hs'[j]? = some hist)
    (htrace : ∀ j < n, tr'[j]? = tr[j]?) : ExploredAt config tr' hs' n hist q k hist_k t :=
  ⟨h.le, hhistories k hist_k h.le h.history, h.pending, h.earlier, h.explored,
    fun j u hk hj hu => h.independent j u hk hj ((htrace j hj).symm.trans hu)⟩

/-- Transitions of one runner are dependent. -/
theorem areDependent_of_executor_eq {relation : DispatchTable} {t u : Transition}
    (h : t.executor = u.executor) : areDependent relation t u = true := by
  rw [areDependent, h, beq_self_eq_true, Bool.true_or]

/-- What sleeps at the top has been explored completely. -/
theorem SleepInvariant.top (h : SleepInvariant config c.getTrace (init ++ [back]) hs)
    (hstack : StackInvariant r₀ runners c (init ++ [back]) hs) {hist : ItemHistory}
    (hhist : hs[init.length]? = some hist) {q : RunnerId} (hq : q ∈ back.sleepSet) :
    ∃ k hist_k t, ExploredAt config c.getTrace hs init.length hist q k hist_k t ∧
      t ∈ hist_k.explored.map Prod.fst := by
  obtain ⟨k, hist_k, t, ht⟩ := h init.length back hist q (by simp) hhist hq
  refine ⟨k, hist_k, t, ht, ht.explored.resolve_right fun ⟨hk, hcurrent⟩ => ?_⟩
  subst hk
  have hlength := hstack.length
  rw [List.length_append, List.length_singleton] at hlength
  have hitem := hstack.items init.length back hist_k (by simp) ht.history
  have hnone : c.currentProgramModel.trace[init.length]? = none :=
    List.getElem?_eq_none (Nat.add_right_cancel hlength).ge
  rw [hitem.current, hnone] at hcurrent
  cases hcurrent

/-- What was pending when the top item was pushed is pending. -/
theorem ItemInvariant.pending_now {n : ℕ} {hist : ItemHistory}
    (h : ItemInvariant c.currentProgramModel r₀ runners n back hist) (hn : c.getTrace.length = n)
    {q : RunnerId} {u : Transition} (hu : hist.model.nextSteps.lookup q = some u) :
    c.currentProgramModel.nextSteps.lookup q = some u := by
  have hmodel : hist.model.trace.length = n := by
    rw [h.trace, List.length_take]
    exact min_eq_left hn.ge
  have hkeeps := h.keeps.pending n le_rfl q (h.layered.known q u hu)
  rw [← hn, Coordinator.getTrace, Program.pendingAtDepth_length, ← Coordinator.getTrace, hn,
    ← hmodel, Program.pendingAtDepth_length] at hkeeps
  exact hkeeps.trans hu

/-- **Expanding the trace** keeps the meaning of the sleep sets. -/
theorem SleepInvariant.expand (h : SleepInvariant config c.getTrace (init ++ [back]) hs)
    (hstack : StackInvariant r₀ runners c (init ++ [back]) hs)
    (hexpansion : Expansion config r₀ runners c init back t new stack' c')
    (henabled : t.executor ∈ back.enabledRunners) :
    SleepInvariant config c'.getTrace stack' (expandHistories hs t c'.currentProgramModel) := by
  have hcount : hs.length = init.length + 1 := by
    rw [hstack.histories, List.length_append, List.length_singleton]
  have hlength : c.getTrace.length = init.length := by
    have hlength := hstack.length
    rw [List.length_append, List.length_singleton] at hlength
    omega
  obtain ⟨old, hold⟩ : ∃ old, hs[init.length]? = some old :=
    ⟨_, List.getElem?_eq_getElem (by omega)⟩
  have hitem := hstack.items init.length back old (by simp) hold
  have htrace : ∀ j < init.length, c'.getTrace[j]? = c.getTrace[j]? := fun j hj => by
    rw [hexpansion.trace, List.getElem?_append_left (hlength.symm ▸ hj)]
  have hlast : c'.getTrace[init.length]? = some t := by
    rw [hexpansion.trace, ← hlength, List.getElem?_concat_length]
  -- the histories after the step: that of the former top has `t` as its current transition
  have hkept : ∀ k hist_k, k ≤ init.length → hs[k]? = some hist_k →
      ∃ hist_k', (expandHistories hs t c'.currentProgramModel)[k]? = some hist_k' ∧
        hist_k'.model = hist_k.model ∧ hist_k'.explored = hist_k.explored := by
    intro k hist_k hk hhist
    rcases hk.lt_or_eq with hlt | rfl
    · exact ⟨hist_k, (getElem?_expandHistories hcount).mpr (.inl ⟨hlt, hhist⟩), rfl, rfl⟩
    · exact ⟨hist_k.execute t,
        (getElem?_expandHistories hcount).mpr (.inr (.inl ⟨rfl, hist_k, hhist, rfl⟩)), rfl, rfl⟩
  intro n item' hist q hitem' hhist hq
  obtain ⟨item, hgrown, hsame⟩ := exists_of_update hexpansion.updated hitem'
  have hsleep : q ∈ item.sleepSet := by
    rw [eq_of_withoutBacktrackSet hsame] at hq
    exact hq
  rcases (getElem?_expandHistories hcount).mp hhist with
    ⟨hn, hhist'⟩ | ⟨rfl, old', hold', rfl⟩ | ⟨rfl, rfl⟩
  · rw [List.getElem?_append_left hn] at hgrown
    obtain ⟨k, hist_k, u, hu⟩ :=
      h n item hist q ((List.getElem?_append_left hn).trans hgrown) hhist' hsleep
    refine ⟨k, hist_k, u, hu.mono (fun j hist hj hhist => ?_) fun j hj => htrace j (hj.trans hn)⟩
    exact (getElem?_expandHistories hcount).mpr (.inl ⟨hj.trans_lt hn, hhist⟩)
  · obtain rfl : old = old' := Option.some.inj (hold.symm.trans hold')
    rw [List.getElem?_append_right le_rfl, Nat.sub_self] at hgrown
    obtain rfl := Option.some.inj hgrown
    have hsleep' : q ∈ insert t.executor back.sleepSet := hsleep
    rcases Finset.mem_insert.mp hsleep' with rfl | hback
    · -- the runner which has just been executed
      obtain ⟨l, hl, henabled'⟩ := hitem.enabled
      rw [henabled', List.mem_toFinset] at henabled
      obtain ⟨u, hu, -⟩ := ((Program.getEnabledRunners_eq_ok hl).2 t.executor).mp henabled
      have hpending : old.model.nextSteps.lookup t.executor = some t := by
        have hnow := hitem.pending_now hlength hu
        rw [hexpansion.pending] at hnow
        rw [hu, Option.some.inj hnow]
      exact ⟨init.length, old.execute t, t, le_rfl, hhist, hpending, hpending, .inr ⟨rfl, rfl⟩,
        fun j u hk hj => absurd hj (not_lt.mpr hk)⟩
    · obtain ⟨k, hist_k, u, hu, hexplored⟩ := h.top hstack hold hback
      obtain ⟨hist_k', hhist_k', hmodel, hsame'⟩ := hkept k hist_k hu.le hu.history
      exact ⟨k, hist_k', u, hu.le, hhist_k', hu.pending, hmodel ▸ hu.earlier,
        .inl (hsame' ▸ hexplored), fun j w hk hj hw => hu.independent j w hk hj
          ((htrace j hj).symm.trans hw)⟩
  · rw [List.getElem?_append_right (Nat.le_add_right _ 1), Nat.add_sub_cancel_left] at hgrown
    obtain rfl := Option.some.inj hgrown
    obtain ⟨hback, u, hu, hindependent⟩ := hexpansion.asleep q hsleep
    obtain ⟨k, hist_k, u', hu', hexplored⟩ := h.top hstack hold hback
    obtain ⟨hist_k', hhist_k', hmodel, hsame'⟩ := hkept k hist_k hu'.le hu'.history
    -- the transition which is pending after the step was pending before it
    have hne : t.executor ≠ q := by
      intro hexec
      have hkeyed : u.executor = q := hexpansion.layered.keyed q u hu
      rw [areDependent_of_executor_eq (hkeyed.trans hexec.symm)] at hindependent
      cases hindependent
    have hsame'' : c'.currentProgramModel.nextSteps.lookup q =
        c.currentProgramModel.nextSteps.lookup q := by
      have hlt : q < c.currentProgramModel.runnerCount :=
        (hitem.layered.known q u' hu'.pending).trans_le hitem.keeps.count
      have hnext : c'.currentProgramModel.trace.length = init.length + 1 := by
        have htrace' := congrArg List.length hexpansion.trace
        rwa [List.length_append, List.length_singleton, hlength] at htrace'
      have hkeeps := hexpansion.keeps.pending init.length hlength.ge q hlt
      rw [← Program.pendingAtDepth_succ hlast hne, ← hnext, Program.pendingAtDepth_length] at hkeeps
      rw [hkeeps, ← hlength]
      exact Program.pendingAtDepth_length
    obtain rfl : u' = u := by
      have hnow := hitem.pending_now hlength hu'.pending
      rw [← hsame'', hu] at hnow
      exact (Option.some.inj hnow).symm
    refine ⟨k, hist_k', u', hu'.le.trans (Nat.le_succ _), hhist_k', hu, hmodel ▸ hu'.earlier,
      .inl (hsame' ▸ hexplored), fun j w hk hj hw => ?_⟩
    rcases (Nat.lt_succ_iff.mp hj).lt_or_eq with hlt | rfl
    · exact hu'.independent j w hk hlt ((htrace j hlt).symm.trans hw)
    · obtain rfl := Option.some.inj (hlast.symm.trans hw)
      exact hindependent

/-- **Going back** keeps the meaning of the sleep sets: what the search was busy with has been
explored. -/
theorem SleepInvariant.goBack (h : SleepInvariant config c.getTrace stack hs)
    (hstack : StackInvariant r₀ runners c stack hs) (hpre : init ++ [back] <+: stack)
    (htrace : ∀ j < init.length, c'.getTrace[j]? = c.getTrace[j]?) :
    SleepInvariant config c'.getTrace (init ++ [back])
      (backHistories stack hs (init.length + 1)) := by
  have hlt : init.length < hs.length := by
    have hle := hpre.length_le
    rw [List.length_append, List.length_singleton, ← hstack.histories] at hle
    omega
  intro n item hist q hitem hhist hq
  have hold := getElem?_of_prefix hpre hitem
  rcases (getElem?_backHistories hlt).mp hhist with ⟨hn, hhist'⟩ | ⟨rfl, old, hold', rfl⟩
  · obtain ⟨k, hist_k, t, ht⟩ := h n item hist q hold hhist' hq
    refine ⟨k, hist_k, t, ht.mono (fun j hist hj hhist => ?_) fun j hj => htrace j (hj.trans hn)⟩
    exact (getElem?_backHistories hlt).mpr (.inl ⟨hj.trans_lt hn, hhist⟩)
  · obtain ⟨k, hist_k, t, ht⟩ := h init.length item old q hold hold' hq
    have hindependent : ∀ j u, k ≤ j → j < init.length → c'.getTrace[j]? = some u →
        areDependent config.dependencyRelation t u = false := fun j u hk hj hu =>
      ht.independent j u hk hj ((htrace j hj).symm.trans hu)
    rcases ht.le.lt_or_eq with hk | rfl
    · refine ⟨k, hist_k, t, ht.le, (getElem?_backHistories hlt).mpr (.inl ⟨hk, ht.history⟩),
        ht.pending, ht.earlier, ?_, hindependent⟩
      exact .inl (ht.explored.resolve_right fun ⟨heq, _⟩ => hk.ne heq)
    · obtain rfl : old = hist_k := Option.some.inj (hold'.symm.trans ht.history)
      refine ⟨init.length, _, t, le_rfl, hhist, ht.pending, ht.pending, .inl ?_, hindependent⟩
      have hbranches :=
        ItemHistory.map_branches (hstack.current_eq_none hold hold')
      rw [ItemHistory.comeBack, hbranches, ItemHistory.executed]
      rcases ht.explored with hexplored | ⟨-, hcurrent⟩
      · exact List.mem_append_left _ hexplored
      · rw [hcurrent]
        exact List.mem_append_right _ (List.mem_singleton_self t)

end Step

/-! ### Runs -/

/-- What sleeps has been explored, in every run. -/
theorem sleepInvariant_of_traced (hc : c.Initial) (h : Traced source config callbacks c s hs) :
    SleepInvariant config s.coordinator.getTrace s.stack hs := by
  induction h with
  | start hstart =>
    obtain ⟨enabled, -, hs⟩ := bind_eq_ok.mp hstart
    obtain rfl := Except.ok.inj hs
    intro n item hist q hitem hhist hq
    obtain rfl : n = 0 := by
      have hlt : n < 1 := (List.getElem?_eq_some_iff.mp hitem).1
      omega
    obtain rfl := Option.some.inj hitem
    exact absurd hq (Finset.notMem_empty q)
  | expand h hstep hexpands ht ih =>
    obtain ⟨runners, init, back, t, new, heq, hstack, henabled, -, hexpansion⟩ :=
      (searchInvariant_of_traced hc h hstep.stack_ne_nil).expands hexpands
    rw [hexpansion.trace, List.getLast?_concat] at ht
    obtain rfl := Option.some.inj ht
    rw [heq] at ih hstack
    exact ih.expand hstack hexpansion henabled
  | @back s s' hs h hstep hphase ih =>
    obtain ⟨runners, hstack⟩ := (searchInvariant_of_traced hc h hstep.stack_ne_nil).stack
    cases hstep.move with
    | explore _ _ hphase' _ _ _ _ => exact absurd (hphase.symm.trans hphase'.2) (by decide)
    | finish hphase' _ _ _ => exact absurd (hphase.symm.trans hphase'.2) (by decide)
    | follow _ _ _ hphase' _ _ _ _ => exact absurd (hphase.symm.trans hphase'.2) (by decide)
    | goBack init back _ hpop hrun hs' =>
      have hinit := (rootKept_of_reachable h.reachable).searched.ne_nil hpop
      have hafter : afterReturn init.length back = back :=
        if_neg fun hzero => hinit (List.length_eq_zero_iff.mp hzero)
      rw [hafter] at hs'
      obtain ⟨htrace, -⟩ := returnToDepth_trace hrun
      have hlength : s'.stack.length = init.length + 1 := by
        rw [hs', List.length_append, List.length_singleton]
      rw [hlength, hs']
      refine ih.goBack hstack (hpop ▸ popExplored_prefix s.stack) fun j hj => ?_
      rw [htrace, List.getElem?_take_of_lt hj]
  | finish _ _ hstack _ =>
    intro n item hist q hitem
    rw [hstack] at hitem
    cases hitem

/-- **Sleep sets only hold what has been explored.** Whenever the trace has been expanded, and a
runner sleeps in an item, then the transition which it had pending there is one which it had
pending at some depth up to there, and which has been executed from the item at that depth: either
it is the transition which has just been executed from the item itself, or the search has come back
from it, and left a subtree behind in which nothing is left to be explored. It is independent of
all that is executed in between. -/
theorem sleepSet_explored (hc : c.Initial) (h : Traced source config callbacks c s hs)
    (hexpands : s.Expands source config stack c') :
    ∃ t_n, c'.getTrace.getLast? = some t_n ∧
      ∀ (n : ℕ) (item : StackItem) (hist : ItemHistory) (q : RunnerId), stack[n]? = some item →
        (expandHistories hs t_n c'.currentProgramModel)[n]? = some hist → q ∈ item.sleepSet →
        ∃ k item_k hist_k t, stack[k]? = some item_k ∧
          ExploredAt config c'.getTrace (expandHistories hs t_n c'.currentProgramModel) n hist q k
            hist_k t ∧
          t.executor = q ∧ q ∈ item_k.doneSet ∧
          ((∃ subtree, (t, subtree) ∈ hist_k.explored ∧
              subtree.model.trace = c'.getTrace.take k ++ [t] ∧ subtree.Explored) ∨
            k = n ∧ c'.getTrace[k]? = some t ∧ item_k.outTransition = .valid t) := by
  obtain ⟨runners, init, back, t_n, new, heq, hstack, henabled, hdone, hexpansion⟩ :=
    (searchInvariant_of_traced hc h hexpands.stack_ne_nil).expands hexpands
  have hsleep := sleepInvariant_of_traced hc h
  have hbranches : BranchesExplored (expandHistories hs t_n c'.currentProgramModel) :=
    (branchesExplored_of_traced hc h).expand (hstack.histories.trans hstack.length)
  rw [heq] at hstack hsleep
  have hexpanded := hstack.expand hexpansion hdone
  refine ⟨t_n, by rw [hexpansion.trace, List.getLast?_concat], fun n item hist q hitem hhist hq => ?_⟩
  obtain ⟨k, hist_k, t, ht⟩ :=
    hsleep.expand hstack hexpansion henabled n item hist q hitem hhist hq
  obtain ⟨item_k, hitem_k⟩ : ∃ item_k, stack[k]? = some item_k :=
    ⟨_, List.getElem?_eq_getElem (ht.le.trans_lt (List.getElem?_eq_some_iff.mp hitem).1)⟩
  have hinvariant := hexpanded.items k item_k hist_k hitem_k ht.history
  have hexec : t.executor = q := hinvariant.layered.keyed q t ht.earlier
  refine ⟨k, item_k, hist_k, t, hitem_k, ht, hexec, (hinvariant.done q).mpr ?_, ?_⟩
  · refine List.mem_map.mpr ⟨t, List.mem_append.mpr ?_, hexec⟩
    refine ht.explored.imp_right fun ⟨_, hcurrent⟩ => ?_
    rw [hcurrent]
    exact List.mem_singleton_self t
  · rcases ht.explored with hexplored | ⟨hk, hcurrent⟩
    · obtain ⟨⟨t, subtree⟩, hmem, rfl⟩ := List.mem_map.mp hexplored
      have hbranch := hbranches k hist_k ht.history _ hmem
      have hmodel : hist_k.model.trace = c'.getTrace.take k := hinvariant.trace
      exact .inl ⟨subtree, hmem, hmodel ▸ hbranch.trace, hbranch.explored⟩
    · rw [hinvariant.current] at hcurrent
      exact .inr ⟨hk, hcurrent, hinvariant.out t hcurrent⟩

/-- After the execution of thread `1`, thread `0` sleeps in the item below the top: it has been
executed before, and what followed has been explored. -/
theorem sleepSet_explored_racing : ∃ (k : ℕ) (t : Transition) (subtree : Subtree),
    k ≤ 1 ∧ t.executor = 0 ∧ subtree.Explored ∧
      subtree.model.trace = (searchOfTwoRacing 4).coordinator.getTrace.take k ++ [t] := by
  obtain ⟨hs, htraced⟩ := (reachable_searchOfTwoRacing 3 (by omega)).traced
  obtain ⟨t_n, ht_n, hexplored⟩ :=
    sleepSet_explored initial_atTwoRacing htraced expands_searchOfTwoRacing
  have hsleep : (searchOfTwoRacing 4).stack[1]?.map (fun item => decide (0 ∈ item.sleepSet)) =
      some true := by rfl
  obtain ⟨item, hitem, hzero⟩ := Option.map_eq_some_iff.mp hsleep
  obtain ⟨hist, hhist⟩ := exists_history_of_expands initial_atTwoRacing htraced
    expands_searchOfTwoRacing ht_n (List.getElem?_eq_some_iff.mp hitem).1
  obtain ⟨k, item_k, hist_k, t, -, hat, hexec, -, hcase⟩ :=
    hexplored 1 item hist 0 hitem hhist (of_decide_eq_true hzero)
  rcases hcase with ⟨subtree, -, htrace, hsubtree⟩ | ⟨rfl, ht, -⟩
  · exact ⟨k, t, subtree, hat.le, hexec, hsubtree, htrace⟩
  · -- what has just been executed from the item is a transition of thread `1`
    have hlast : (searchOfTwoRacing 4).coordinator.getTrace[1]? = some ⟨1, .mutexLock 2⟩ := by rfl
    rw [hlast] at ht
    obtain rfl := Option.some.inj ht
    cases hexec

end McMini
