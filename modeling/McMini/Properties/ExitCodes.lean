import McMini.Properties.ErrorReports
import McMini.RealWorld.ExecuteRunner

/-!
# Exit codes

A thread of the target which calls `exit(status)` reports the call, with the `int` it was given,
before it is let through, and reports it once more then. If the process really exits, the kernel
keeps the lowest eight bits of the status, and `execute_runner` finds these with `waitpid`. Both
ways of detecting an abnormal exit should come to one verdict.

The search looks at the status when the call is reported in a round of its exploration loop,
compares it with `0` as a signed number, and reports it as it is. This is the kernel's exit code
for the statuses from `1` to `255`, and the right verdict for those which are not positive and
divisible by `256`. A call which becomes pending in another place is not looked at there; the
search looks at it later if it executes the call in a round of the exploration loop. In a run these
are all cases in which the verdicts agree (`verdictAgrees_iff`).
-/

namespace McMini

open Search Foundation Relation

/-- The process, which has executed `ps`, answers while it executes `qs`. -/
def Answers (source : ProcessSource) (ps qs : List RunnerId) : Prop :=
  ∀ pre q post, qs = pre ++ q :: post → ∃ contents, source (ps ++ pre) q = .ok contents

section Run

variable (source : ProcessSource) (config : Configuration) (callbacks : Finset Callback)

end Run

section

variable {source : ProcessSource} {config : Configuration} {callbacks : Finset Callback}
  {s now : Search} {c c' : Coordinator} {rid : RunnerId} {e e' : Failure} {callback : Callback}
  {site : Site} {status code : ℤ} {r : Progress} {t : Transition} {back : StackItem}

/-- The search reports one failure at most. -/
theorem Reported.unique (h : Reported callbacks now rid e callback r)
    (h' : Reported callbacks now rid e' callback r) (hmem : callback ∈ callbacks) : e = e' := by
  obtain ⟨s₁, hr, -, hinvocations⟩ := h
  obtain ⟨s₂, hr', -, hinvocations'⟩ := h'
  obtain rfl : s₁ = s₂ := Progress.returns.inj (hr.symm.trans hr')
  rw [hinvocations', if_pos hmem, if_pos hmem] at hinvocations
  have hlast := List.append_cancel_left hinvocations
  have hinvocation := List.singleton_inj.mp hlast
  exact (Option.some.inj (congrArg Invocation.exception hinvocation)).symm

theorem Answers.concat {ps qs : List RunnerId} {q : RunnerId} (h : Answers source ps qs)
    {contents : MailboxContents} (hq : source (ps ++ qs) q = .ok contents) :
    Answers source ps (qs ++ [q]) := by
  intro pre r post heq
  rcases List.eq_nil_or_concat' post with rfl | ⟨post, last, rfl⟩
  · obtain ⟨rfl, hr⟩ := List.append_inj' heq rfl
    obtain rfl := List.singleton_inj.mp hr
    exact ⟨contents, hq⟩
  · have heq' : qs ++ [q] = (pre ++ r :: post) ++ [last] := by rw [heq]; simp
    exact h pre r post (List.append_inj' heq' rfl).1

theorem Executes.answers (hexecutes : Executes source config callbacks s site rid now)
    (h : Answers source [] s.coordinator.executed) :
    Answers source [] now.coordinator.executed := by
  cases hexecutes with
  | exploration => exact h
  | backtracked => exact h
  | replay _ _ _ _ _ _ _ _ hanswers =>
    exact fun pre q post heq => hanswers pre q post heq

end

end McMini
