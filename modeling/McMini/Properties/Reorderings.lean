import McMini.Foundation.Linearizations
import McMini.Properties.Independence

/-!
# Reordering a run

The search executes one order of the transitions of a trace and does without the others in which
the dependent transitions come in the same order. This is justified by the relation it uses: all
these orders are runs, and they lead to the same state (`run_of_linearizes`).
-/

namespace McMini

open Foundation

variable {s₀ s s₁ s' : State} {tr pre post : List Transition} {t₁ t₂ : Transition} {order : List ℕ}

/-- The relation which orders the transitions of a trace. -/
def Dependent (t₁ t₂ : Transition) : Prop := areDependent defaultDependencies t₁ t₂ = true

instance (t₁ t₂ : Transition) : Decidable (Dependent t₁ t₂) :=
  inferInstanceAs (Decidable (areDependent defaultDependencies t₁ t₂ = true))

/-- Whether runners are created once does not depend on the order of the transitions. -/
theorem CreatedOnce.perm {tr' : List Transition} (h : CreatedOnce s₀ tr) (hperm : tr.Perm tr') :
    CreatedOnce s₀ tr' := by
  have htargets : (createTargets tr).Perm (createTargets tr') := hperm.filterMap _
  exact ⟨htargets.nodup_iff.mp h.1, fun b hb => h.2 b (htargets.mem_iff.mpr hb)⟩

theorem CreatedOnce.of_append (h : CreatedOnce s₀ (pre ++ post)) : CreatedOnce s₀ pre := by
  obtain ⟨hnodup, hembryo⟩ := h
  rw [createTargets_append] at hnodup hembryo
  exact ⟨hnodup.of_append_left, fun b hb => hembryo b (List.mem_append_left _ hb)⟩

/-- Two transitions which do not depend on each other may be executed the other way round. -/
theorem fire_exchange (hrun : run s₀ pre = some s) (honce : CreatedOnce s₀ (pre ++ [t₁, t₂]))
    (h : ¬ Dependent t₁ t₂) (h₁ : fire t₁ s = some s₁) (h₂ : fire t₂ s₁ = some s') :
    ∃ s₂, fire t₂ s = some s₂ ∧ fire t₁ s₂ = some s' := by
  have hne : t₁.executor ≠ t₂.executor := by
    intro heq
    exact h (by simp [Dependent, areDependent, heq])
  have hcall : defaultDependencies.callOr true t₁ t₂ = false := by
    simpa [Dependent, areDependent, hne] using h
  have hexc : ¬ CreatesJoined t₁ t₂ := fun hexc =>
    (not_enabled_join_of_creates hrun honce hexc h₁).2 (enabled_iff.mpr ⟨s', h₂⟩)
  have hwt : WellTyped s t₂ :=
    (fire_eq_some_iff_step.mp h₁).wellTyped_iff.mp (fire_eq_some_iff_step.mp h₂).wellTyped
  obtain ⟨h₁₂, h₂₁⟩ :=
    footprints_disjoint hcall hrun honce hne (enabled_iff.mpr ⟨s₁, h₁⟩) hwt hexc
  have hfp₁ := footprint_fire t₁ s.objidForRunner
  have hfp₂ := footprint_fire t₂ s.objidForRunner
  -- the second is enabled before the first, since the first writes nothing which it reads
  obtain ⟨s₂, hs₂⟩ : ∃ s₂, fire t₂ s = some s₂ := by
    have hsome := (hfp₁.isSome_iff hfp₂ rfl h₁₂ h₁).mpr (by rw [h₂]; rfl)
    exact Option.isSome_iff_exists.mp hsome
  obtain ⟨u, hu, hu'⟩ := hfp₁.commute (fun hobj hget => State.ext (funext hget) hobj) hfp₂ rfl
    h₁₂ h₂₁ (h₁₂.mono_right Transition.writes_subset_reads) h₁ hs₂
  obtain rfl := Option.some.inj (h₂.symm.trans hu)
  exact ⟨s₂, hs₂, hu'⟩

/-- Neighbours in a run which do not depend on each other may change places. -/
theorem run_exchange (h : ¬ Dependent t₁ t₂) (honce : CreatedOnce s₀ (pre ++ t₁ :: t₂ :: post))
    (hrun : run s₀ (pre ++ t₁ :: t₂ :: post) = some s') :
    run s₀ (pre ++ t₂ :: t₁ :: post) = some s' := by
  obtain ⟨s, hpre, hrest⟩ := run_append_eq_some.mp hrun
  obtain ⟨s₁, h₁, hrest⟩ := run_cons_eq_some.mp hrest
  obtain ⟨s₂, h₂, hpost⟩ := run_cons_eq_some.mp hrest
  have honce' : CreatedOnce s₀ ((pre ++ [t₁, t₂]) ++ post) := by
    rw [List.append_assoc]
    exact honce
  obtain ⟨u, hu₂, hu₁⟩ := fire_exchange hpre honce'.of_append h (fire_eq_some_iff_step.mpr h₁)
    (fire_eq_some_iff_step.mpr h₂)
  refine run_append_eq_some.mpr ⟨s, hpre, ?_⟩
  refine run_cons_eq_some.mpr ⟨u, fire_eq_some_iff_step.mp hu₂, ?_⟩
  exact run_cons_eq_some.mpr ⟨s₂, fire_eq_some_iff_step.mp hu₁, hpost⟩

/-- **Equivalent runs.** The transitions of a run may be executed in every order in which none
comes before one that happens before it: each of them is enabled when it is executed, and the
state reached is the same. -/
theorem run_of_linearizes (hrun : run s₀ tr = some s) (honce : CreatedOnce s₀ tr)
    (hlinear : Linearizes Dependent tr order) : run s₀ (reordered tr order) = some s := by
  refine (of_linearizes (R := fun tr => CreatedOnce s₀ tr ∧ run s₀ tr = some s) ?_ hlinear
    ⟨honce, hrun⟩).2
  rintro pre t₁ t₂ post hdep ⟨honce, hrun⟩
  exact ⟨honce.perm (List.Perm.append_left pre (List.Perm.swap ..)), run_exchange hdep honce hrun⟩

/-- Two runners and two mutexes. -/
private def otherMutexes : State :=
  .ofRunnersAndObjects [⟨.running⟩, ⟨.running⟩]
    [.mutex ⟨.unlocked, 64, ridInvalid⟩, .mutex ⟨.unlocked, 128, ridInvalid⟩]

/-- Runner `1` may lock its mutex before runner `0` does, as well as in between. -/
theorem run_of_linearizes_locks : ∃ s,
    run otherMutexes [⟨0, .mutexLock 2⟩, ⟨1, .mutexLock 3⟩, ⟨0, .mutexUnlock 2⟩] = some s ∧
      run otherMutexes [⟨1, .mutexLock 3⟩, ⟨0, .mutexLock 2⟩, ⟨0, .mutexUnlock 2⟩] = some s := by
  obtain ⟨s, hrun⟩ : ∃ s, run otherMutexes
      [⟨0, .mutexLock 2⟩, ⟨1, .mutexLock 3⟩, ⟨0, .mutexUnlock 2⟩] = some s :=
    Option.isSome_iff_exists.mp (by decide)
  have honce : CreatedOnce otherMutexes
      [⟨0, .mutexLock 2⟩, ⟨1, .mutexLock 3⟩, ⟨0, .mutexUnlock 2⟩] :=
    ⟨List.nodup_nil, fun b hb => by simp [createTargets, Operation.created] at hb⟩
  have hlinear : Linearizes Dependent
      [⟨0, .mutexLock 2⟩, ⟨1, .mutexLock 3⟩, ⟨0, .mutexUnlock 2⟩] [1, 0, 2] := by
    refine ⟨by decide, ?_⟩
    have hlocks : ¬ HappensBefore Dependent
        [⟨0, .mutexLock 2⟩, ⟨1, .mutexLock 3⟩, ⟨0, .mutexUnlock 2⟩] 0 1 := by
      intro h
      rcases Relation.ReflTransGen.cases_tail h with heq | ⟨k, -, hk, a, b, ha, hb, hdep⟩
      · cases heq
      · obtain rfl : k = 0 := by omega
        obtain rfl := Option.some.inj ha
        obtain rfl := Option.some.inj hb
        exact absurd hdep (by decide)
    have hlater : ∀ {i j}, i < j → ¬ HappensBefore Dependent
        [⟨0, .mutexLock 2⟩, ⟨1, .mutexLock 3⟩, ⟨0, .mutexUnlock 2⟩] j i :=
      fun hij h => absurd h.le (not_le.mpr hij)
    simp [hlocks, hlater]
  exact ⟨s, hrun, run_of_linearizes hrun honce hlinear⟩

end McMini
