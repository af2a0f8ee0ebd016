import McMini.Properties.Termination

/-!
# What the search leaves behind

When the search goes back it pops the items above the one it goes back to, and what it has found
out about their states is gone. The histories keep it: a branch which has been explored remembers
the items popped above it, each with the branches explored from there (`Subtree`). Such a subtree
is *explored* if no backtrack point is left in any of its items, and whatever the items count as
done has been executed and leads to an explored subtree. Every branch which the search has come
back from leads to one (`branchesExplored_of_traced`).
-/

namespace McMini

open Search Foundation

variable {source : ProcessSource} {config : Configuration} {callbacks : Finset Callback}
  {c c' : Coordinator} {s s' : Search} {hs : List ItemHistory} {stack : List StackItem}
  {hist : ItemHistory} {branch : Transition × Subtree} {r₀ n : ℕ} {runners : List ℕ}

/-- The search has exhausted the state of the model and all that follows it: nothing is left to be
explored from the item, the runners which are done are those executed from it, of which there is
one where any is enabled, and each transition leads to a state which has been exhausted. -/
inductive Subtree.Explored : Subtree → Prop
  | node {item : StackItem} {model : Program} {branches : List (Transition × Subtree)}
      (hbacktrack : item.backtrackSet = ∅)
      (henabled : ∃ l, model.getEnabledRunners = .ok l ∧ item.enabledRunners = l.toFinset)
      (hdone : ∀ q, q ∈ item.doneSet ↔ q ∈ (branches.map Prod.fst).map (·.executor))
      (hexecuted : item.enabledRunners ≠ ∅ → branches ≠ [])
      (htrace : ∀ branch ∈ branches, branch.2.model.trace = model.trace ++ [branch.1])
      (hexplored : ∀ branch ∈ branches, branch.2.Explored) : Explored (.node item model branches)

/-- The transition of the branch, executed from the item, leads to the state at the root of the
subtree, which has been exhausted. -/
structure ItemHistory.BranchExplored (hist : ItemHistory) (branch : Transition × Subtree) :
    Prop where
  trace : branch.2.model.trace = hist.model.trace ++ [branch.1]
  explored : branch.2.Explored

/-- Every branch which the search has come back from has been explored. -/
def BranchesExplored (hs : List ItemHistory) : Prop :=
  ∀ (n : ℕ) (hist : ItemHistory), hs[n]? = some hist →
    ∀ branch ∈ hist.explored, hist.BranchExplored branch

/-! ### Popped items -/

/-- Popped items have nothing left to be explored. -/
theorem backtrackSet_eq_empty_of_popped {item : StackItem} {i : ℕ}
    (hi : (popExplored stack).length ≤ i) (hitem : stack[i]? = some item) :
    item.backtrackSet = ∅ := by
  have hsplit : popExplored stack ++ stack.rtakeWhile (·.backtrackSetEmpty) = stack :=
    List.rdropWhile_append_rtakeWhile
  rw [← hsplit, List.getElem?_append_right hi] at hitem
  have hempty : item.backtrackSetEmpty = true :=
    List.mem_rtakeWhile_imp (List.mem_of_getElem? hitem)
  exact of_decide_eq_true hempty

/-- The stack and the histories from the depth `i + 1` on. -/
theorem drop_zip (hlength : hs.length = stack.length) {i : ℕ} {item : StackItem}
    (hitem : stack[i]? = some item) (hhist : hs[i]? = some hist) :
    (stack.zip hs).drop i = (item, hist) :: (stack.zip hs).drop (i + 1) := by
  obtain ⟨hlt, rfl⟩ := List.getElem?_eq_some_iff.mp hitem
  obtain ⟨hlt', rfl⟩ := List.getElem?_eq_some_iff.mp hhist
  rw [List.drop_eq_getElem_cons (by rw [List.length_zip, hlength, min_self]; exact hlt),
    List.getElem_zip]

/-- The branches at depth `i` when the items above are popped. The induction is on the number of
these items: the branch which the search was following leads to the item above, whose branches
have been explored. -/
theorem StackInvariant.branchExplored (h : StackInvariant r₀ runners c stack hs)
    (hexplored : BranchesExplored hs)
    (hpopped : ∀ i item, n < i → stack[i]? = some item → item.backtrackSet = ∅)
    (htop : ∀ init back, stack = init ++ [back] → back.enabledRunners = ∅)
    {m i : ℕ} (hi : i + m + 1 = stack.length) (hn : n ≤ i) (hhist : hs[i]? = some hist) :
    ∀ branch ∈ hist.branches ((stack.zip hs).drop (i + 1)), hist.BranchExplored branch := by
  induction m generalizing i hist with
  | zero =>
    have hnil : (stack.zip hs).drop (i + 1) = [] := by
      rw [List.drop_eq_nil_iff, List.length_zip, h.histories, min_self]
      exact hi.ge
    rw [hnil]
    exact hexplored i hist hhist
  | succ m ih =>
    obtain ⟨item, hitem⟩ : ∃ item, stack[i]? = some item :=
      ⟨_, List.getElem?_eq_getElem (by omega)⟩
    obtain ⟨item', hitem'⟩ : ∃ item', stack[i + 1]? = some item' :=
      ⟨_, List.getElem?_eq_getElem (by omega)⟩
    obtain ⟨above, habove⟩ : ∃ above, hs[i + 1]? = some above :=
      ⟨_, List.getElem?_eq_getElem (by rw [h.histories]; omega)⟩
    have hinvariant := h.items i item hist hitem hhist
    have hinvariant' := h.items (i + 1) item' above hitem' habove
    have hbranches := ih (by omega) (by omega) habove
    rw [drop_zip h.histories hitem' habove, ItemHistory.branches]
    intro branch hbranch
    rcases List.mem_append.mp hbranch with hold | hnew
    · exact hexplored i hist hhist branch hold
    · obtain ⟨t, ht, rfl⟩ := List.mem_map.mp hnew
      have hcurrent : c.currentProgramModel.trace[i]? = some t := by
        rw [← hinvariant.current]
        exact Option.mem_toList.mp ht
      -- what was executed from the item above is what its branches begin with
      have hexecuted := ItemHistory.map_branches (h.current_eq_none hitem' habove)
      refine ⟨?_, .node (hpopped _ _ (by omega) hitem') hinvariant'.enabled (fun q => ?_)
        (fun henabled hnil => ?_) (fun branch hb => (hbranches branch hb).trace)
        fun branch hb => (hbranches branch hb).explored⟩
      · show above.model.trace = _
        rw [hinvariant'.trace, hinvariant.trace, List.take_add_one, hcurrent, Option.toList_some]
      · rw [hexecuted]
        exact hinvariant'.done q
      · -- a runner is enabled, so the item is not the top of the stack
        rw [hnil, List.map_nil] at hexecuted
        have hnone : above.current = none := by
          have htail := (List.append_eq_nil_iff.mp hexecuted.symm).2
          exact Option.toList_eq_nil_iff.mp htail
        rw [hinvariant'.current] at hnone
        have hle := List.getElem?_eq_none_iff.mp hnone
        have hlength := h.length
        have hone : stack = stack.take (i + 1) ++ [item'] := by
          have htake : stack.take (i + 1 + 1) = stack :=
            List.take_of_length_le (by rw [hlength]; exact Nat.succ_le_succ hle)
          conv_lhs => rw [← htake]
          rw [List.take_add_one, hitem', Option.toList_some]
        exact henabled (htop _ _ hone)

/-! ### Runs -/

/-- Executing a transition explores nothing. -/
theorem BranchesExplored.expand (h : BranchesExplored hs) {t : Transition} {model : Program}
    (hlength : hs.length = n + 1) : BranchesExplored (expandHistories hs t model) := by
  intro i hist hhist
  rcases (getElem?_expandHistories hlength).mp hhist with ⟨-, hold⟩ | ⟨-, old, hold, rfl⟩ | ⟨-, rfl⟩
  · exact h i hist hold
  · exact fun branch hbranch =>
      ⟨(h n old hold branch hbranch).trace, (h n old hold branch hbranch).explored⟩
  · exact fun branch hbranch => absurd hbranch List.not_mem_nil

/-- **What the search comes back from has been explored.** -/
theorem branchesExplored_of_traced (hc : c.Initial) (h : Traced source config callbacks c s hs) :
    BranchesExplored hs := by
  induction h with
  | start hstart =>
    intro n hist hhist
    obtain rfl : n = 0 := by
      have hlt : n < 1 := (List.getElem?_eq_some_iff.mp hhist).1
      omega
    obtain rfl := Option.some.inj hhist
    exact fun branch hbranch => absurd hbranch List.not_mem_nil
  | expand h hstep _ _ ih =>
    obtain ⟨runners, hstack⟩ := (searchInvariant_of_traced hc h hstep.stack_ne_nil).stack
    exact ih.expand (hstack.histories.trans hstack.length)
  | @back s s' hs h hstep hphase ih =>
    obtain ⟨runners, hstack⟩ := (searchInvariant_of_traced hc h hstep.stack_ne_nil).stack
    cases hstep.move with
    | explore _ _ hphase' _ _ _ _ => exact absurd (hphase.symm.trans hphase'.2) (by decide)
    | finish hphase' _ _ _ => exact absurd (hphase.symm.trans hphase'.2) (by decide)
    | follow _ _ _ hphase' _ _ _ _ => exact absurd (hphase.symm.trans hphase'.2) (by decide)
    | goBack init back hphases hpop _ hs' =>
      have hlength : s'.stack.length = init.length + 1 := by
        rw [hs', List.length_append, List.length_singleton]
      have hpopped : (popExplored s.stack).length = init.length + 1 := by
        rw [hpop, List.length_append, List.length_singleton]
      have hpre := popExplored_prefix s.stack
      have hle : init.length + 1 ≤ s.stack.length := hpopped ▸ hpre.length_le
      rw [hlength]
      intro i hist hhist
      rcases (getElem?_backHistories (by rw [hstack.histories]; exact hle)).mp hhist with
        ⟨-, hold⟩ | ⟨rfl, old, hold, rfl⟩
      · exact ih i hist hold
      · have hbranches := hstack.branchExplored (m := s.stack.length - init.length - 1) ih
          (fun i item hi hitem => backtrackSet_eq_empty_of_popped (hpopped.trans_le hi) hitem)
          (fun init back heq => hstep.enabledRunners_eq_empty hphases.1 hphases.2 heq)
          (by omega) le_rfl hold
        exact fun branch hbranch =>
          ⟨(hbranches branch hbranch).trace, (hbranches branch hbranch).explored⟩
  | finish _ _ _ _ => exact fun n hist hhist => by cases hhist

end McMini
