import McMini.Foundation.Runs

/-!
# Progress

Where a step can always be taken which brings the goal nearer, there is a run to the goal. The
labels of the run can be required to have a property, and the distance need only be measured, and
the steps found, in states of which an invariant holds.
-/

namespace McMini.Foundation

variable {ι σ : Type*} {step : ι → σ → Option σ} {P G : σ → Prop} {Q : σ → ι → Prop}

theorem exists_run_of_progress (distance : σ → ℕ)
    (progress : ∀ s, P s → ¬ G s →
      ∃ i s', Q s i ∧ step i s = some s' ∧ P s' ∧ distance s' < distance s) {s : σ} (hs : P s) :
    ∃ is s', HoldsAlong step Q s is ∧ runFrom step s is = some s' ∧ P s' ∧ G s' := by
  induction hn : distance s using Nat.strongRecOn generalizing s with
  | ind n ih =>
    by_cases hgoal : G s
    · exact ⟨[], s, trivial, rfl, hs, hgoal⟩
    · obtain ⟨i, s₁, hQ, hstep, hs₁, hlt⟩ := progress s hs hgoal
      obtain ⟨is, s', hQs, hrun, hs', hgoal'⟩ := ih _ (hn ▸ hlt) hs₁ rfl
      refine ⟨i :: is, s', ⟨hQ, fun s₂ hs₂ => ?_⟩, runFrom_cons_eq_some.mpr ⟨s₁, hstep, hrun⟩, hs',
        hgoal'⟩
      obtain rfl := Option.some.inj (hstep.symm.trans hs₂)
      exact hQs

/-- The same where any step may be taken. -/
theorem exists_run_of_descent (distance : σ → ℕ)
    (progress : ∀ s, P s → ¬ G s →
      ∃ i s', step i s = some s' ∧ P s' ∧ distance s' < distance s) {s : σ} (hs : P s) :
    ∃ is s', runFrom step s is = some s' ∧ P s' ∧ G s' := by
  obtain ⟨is, s', -, hrun, hs', hgoal⟩ := exists_run_of_progress distance (Q := fun _ _ => True)
    (fun s hs hgoal => by
      obtain ⟨i, s', hstep, hs', hlt⟩ := progress s hs hgoal
      exact ⟨i, s', trivial, hstep, hs', hlt⟩) hs
  exact ⟨is, s', hrun, hs', hgoal⟩

end McMini.Foundation
