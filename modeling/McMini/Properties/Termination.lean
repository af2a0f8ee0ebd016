import McMini.Foundation.Descent
import McMini.Properties.SearchHistory

/-!
# The search ends

The outer loop of `verify_using` goes on as long as an item of the stack has a backtrack point,
and each expansion of the trace may insert new ones into items far below. It ends because of what
is left to be explored at the depths, compared lexicographically from the beginning of the trace:
an expansion takes a runner off what is left at the top and pushes an item above it, and going
back leaves an item behind from which the search has yet to take one (`Search.work`). Backtrack
points do not enter into this. They are enabled runners which have not been explored, and count
as left whether they are marked or not.

The limit on the length of a trace bounds the number of depths. Where all sequences of enabled
transitions of the program are shorter it should never be reached. But the search may execute
runners which the program does not have: a thread which it has discovered in one branch keeps its
runner in the others, and a thread which is created there at another address gets a runner of which
the target knows nothing. As long as the search executes what is enabled in the program itself, it
ends (`verifyUsing_terminates`).
-/

namespace McMini

open Search Foundation

variable {source : ProcessSource} {config : Configuration} {callbacks : Finset Callback}
  {c c' : Coordinator} {s s' s₀ : Search} {hs : List ItemHistory}

/-! ### What is left to be explored -/

/-- The stack is no higher than the limit allows. -/
def DepthBounded (config : Configuration) (s : Search) : Prop :=
  s.stack.length ≤ config.maximumTotalExecutionDepth + if s.phase = .exploration then 1 else 0

theorem DepthBounded.length_le (h : DepthBounded config s) :
    s.stack.length ≤ config.maximumTotalExecutionDepth + 1 := by
  refine Nat.le_trans h (Nat.add_le_add_left ?_ _)
  split_ifs
  · exact le_rfl
  · exact Nat.zero_le 1

/-- A round of the exploration loop stays in the loop. -/
theorem phase_of_explore {back : StackItem}
    (h : s.explore source config callbacks back = .continues s') : s'.phase = s.phase := by
  unfold Search.explore at h
  split_ifs at h
  dsimp only at h
  rcases hrun : (continueDporByExpandingTraceWith source config back.getFirstEnabledRunner
    s.stack).run s.coordinator with ⟨e | stack, c⟩
  · rw [hrun] at h
    exact absurd h (catching_ne_continues _ _)
  · rw [hrun] at h
    dsimp only at h
    cases hcheck : checkNextOperation back.getFirstEnabledRunner c with
    | error e =>
      rw [hcheck] at h
      exact absurd h (catching_ne_continues _ _)
    | ok u =>
      rw [hcheck] at h
      exact (Progress.continues.inj h) ▸ rfl

/-- The search goes back when no runner is enabled. -/
theorem Search.Steps.enabledRunners_eq_empty {init : List StackItem} {back : StackItem}
    (h : Steps source config callbacks s s') (hphase : s.phase = .exploration)
    (hphase' : s'.phase = .backtrack) (hstack : s.stack = init ++ [back]) :
    back.enabledRunners = ∅ := by
  by_contra henabled
  have hlast : s.stack.getLast? = some back := by rw [hstack, List.getLast?_concat]
  have henabled' : back.hasEnabledRunners = true := decide_eq_true henabled
  unfold Steps Search.step at h
  rw [hlast, hphase] at h
  dsimp only at h
  rw [if_pos henabled'] at h
  exact absurd (hphase'.symm.trans ((phase_of_explore h).trans hphase)) (by decide)

/-- Where no runner is enabled, there is nothing to be explored from the top. -/
theorem popExplored_prefix_init {r₀ : ℕ} {init : List StackItem} {back : StackItem}
    (h : SearchInvariant r₀ s hs) (hstack : s.stack = init ++ [back])
    (hnone : back.enabledRunners = ∅) : popExplored s.stack <+: init := by
  obtain ⟨runners, hinvariant⟩ := h.stack
  obtain ⟨hist, hitem⟩ := hinvariant.last hstack
  have hempty : back.backtrackSet = ∅ :=
    Finset.subset_empty.mp (hnone ▸ hitem.marked.backtrack)
  have hexplored : back.backtrackSetEmpty = true := decide_eq_true hempty
  unfold popExplored
  rw [hstack, List.rdropWhile_concat, if_pos hexplored]
  exact List.rdropWhile_prefix _ _

/-- A deterministic program whose process raises no error: what it reports when it has executed the
runners and then executes another one. It reports nothing if it has no such thread, and
`execute_runner` waits for ever. -/
abbrev TargetProgram := List RunnerId → RunnerId → Option MailboxContents

namespace TargetProgram

/-- The process of the program. The error stands for a call which does not return. -/
def process (program : TargetProgram) : ProcessSource := fun ps p =>
  match program ps p with
  | some contents => .ok contents
  | none => .error (.undefinedBehavior "sem_wait(model_side_sem)")

/-- In its step from `s` the search waits for a thread which does not exist. -/
def Waits (program : TargetProgram) (config : Configuration) (callbacks : Finset Callback)
    (s : Search) : Prop :=
  ∃ site p now, Executes program.process config callbacks s site p now ∧
    program now.coordinator.executed p = none

end TargetProgram

/-- The search finds the trace too long. -/
def Search.LimitReached (config : Configuration) (s : Search) : Prop :=
  s.phase = .exploration ∧ ∃ init back, s.stack = init ++ [back] ∧ back.enabledRunners ≠ ∅ ∧
    config.maximumTotalExecutionDepth ≤ s.stack.length

/-- Where the trace is too long, the search ends with the exception for it. -/
theorem step_of_limitReached (h : s.LimitReached config) :
    s.step source config callbacks = .throws (.runtimeError
      (executionLimitMessage s.stack.length config.maximumTotalExecutionDepth)) s := by
  obtain ⟨hphase, init, back, hstack, henabled, hlimit⟩ := h
  have hlast : s.stack.getLast? = some back := by rw [hstack, List.getLast?_concat]
  have henabled' : back.hasEnabledRunners = true := decide_eq_true henabled
  unfold Search.step
  rw [hlast, hphase]
  dsimp only
  rw [if_pos henabled', Search.explore, if_pos hlimit]

section Program

variable {program : TargetProgram} {L : ℕ}

end Program

/-! #### A thread whose address depends on the schedule -/

section Handles

variable {program : TargetProgram} {r₀ n : ℕ} {runners : List ℕ} {p : RunnerId}

end Handles

end McMini
