import McMini.Model.Relations
import McMini.Properties.ThreadLifeCycle

/-!
# Transitions the dependency relation calls independent

Two transitions of different runners which the default relation does not call dependent
are independent: executing the first neither enables nor disables the second, and when
both are enabled they commute (`independent_of_not_areDependent`).

The table calls transitions independent only when they name different objects, or when
one of them creates or joins a thread other than the executor of the other. In nearly
every case the footprints do not conflict. The exception is the creation of a thread by
one runner and a join on it by another, which touch the same thread; there the join is
enabled neither before the creation nor right after it.
-/

namespace McMini

open Foundation

variable {s₀ s s₁ : State} {tr ts : List Transition} {t₁ t₂ : Transition} {i : ObjId}
  {b : RunnerId} {obj : RunnerId → Option ObjId}

/-! ### What the table says about operands and targets -/

/-- The two do not name the same object, provided that both use their operands at the
right types. -/
theorem operands_disjoint (h : defaultDependencies.callOr true t₁ t₂ = false)
    (h₁ : WellTyped s t₁) (h₂ : WellTyped s t₂) {ty₁ ty₂ : ObjectType}
    (hi₁ : (i, ty₁) ∈ t₁.op.operands) (hi₂ : (i, ty₂) ∈ t₂.op.operands) : False := by
  -- an object named by both is named at one type
  obtain rfl : ty₁ = ty₂ :=
    Option.some.inj ((h₁.operand hi₁).symm.trans (h₂.operand hi₂))
  rw [callOr_defaultDependencies] at h
  split at h
  all_goals first
    | exact Bool.noConfusion h
    | rw [beq_eq_false_iff_ne] at h
  all_goals grind [Operation.operands]

/-- A thread which the first creates or joins is not the executor of the second. -/
theorem target_ne_executor (h : defaultDependencies.callOr true t₁ t₂ = false)
    (hb : t₁.op.target = some b) : b ≠ t₂.executor := by
  rw [callOr_defaultDependencies] at h
  rcases Operation.target_eq_some.mp hb with hop | hop <;>
    simpa [hop] using h

/-- A thread which ends is not the one the other transition joins. -/
theorem target_ne_of_exits (h : defaultDependencies.callOr true t₁ t₂ = false)
    (hexits : t₁.op.exits = true) (hb : t₂.op.target = some b) : b ≠ t₁.executor := by
  rw [callOr_defaultDependencies] at h
  cases hop : t₁.op <;> rw [hop] at h hexits <;> try exact Bool.noConfusion hexits
  all_goals
    rcases Operation.target_eq_some.mp hb with hop' | hop' <;>
      simpa [hop'] using h

/-! ### Independence -/

/-- One transition creates the thread which the other joins. -/
def CreatesJoined (t₁ t₂ : Transition) : Prop :=
  ∃ b, t₁.op = .threadCreate b ∧ t₂.op = .threadJoin b

/-- The footprints of the two transitions do not conflict, apart from the exception. -/
theorem footprints_disjoint (h : defaultDependencies.callOr true t₁ t₂ = false)
    (hrun : run s₀ tr = some s) (honce : CreatedOnce s₀ (tr ++ [t₁, t₂]))
    (hne : t₁.executor ≠ t₂.executor) (h₁ : Enabled t₁ s) (hwt₂ : WellTyped s t₂)
    (hexc : ¬ CreatesJoined t₁ t₂) :
    Disjoint (t₁.writes s.objidForRunner) (t₂.reads s.objidForRunner) ∧
      Disjoint (t₂.writes s.objidForRunner) (t₁.reads s.objidForRunner) := by
  obtain ⟨s₁, hstep₁⟩ := enabled_iff_step.mp h₁
  have hwt₁ := hstep₁.wellTyped
  constructor
  · refine disjoint_writes_reads hwt₁ hwt₂ (fun hi hi' => operands_disjoint h hwt₁ hwt₂ hi hi')
      hne (fun hex hb => target_ne_of_exits h hex hb rfl) fun {b} hb => ⟨?_, fun hb' => ?_⟩
    · exact target_ne_executor h (Operation.target_of_created hb)
    · have hop := Operation.created_eq_some.mp hb
      rcases Operation.target_eq_some.mp hb' with hop' | hop'
      · exact honce.ne hop hop' rfl
      · exact hexc ⟨b, hop, hop'⟩
  · refine disjoint_writes_reads hwt₂ hwt₁
      (fun hi hi' => operands_disjoint h hwt₁ hwt₂ hi' hi) hne.symm
      (fun _ hb => target_ne_executor h hb rfl) fun {b} hb => ?_
    -- the thread the second creates is an embryo, so it neither runs nor has exited
    have hop := Operation.created_eq_some.mp hb
    have hembryo : s.HasThread b ⟨.embryo⟩ :=
      hasThread_embryo_of_created hrun honce (by simp) hop
    refine ⟨?_, fun hb' => ?_⟩
    · rintro rfl
      exact hembryo.not_active hstep₁.active
    · rcases Operation.target_eq_some.mp hb' with hop' | hop'
      · exact honce.ne hop' hop rfl
      · obtain ⟨p, op⟩ := t₁
        obtain rfl : op = _ := hop'
        cases hstep₁ with
        | threadJoin _ hexited => exact hembryo.not_exited hexited

/-- The exception: before its creation and right after it, a thread cannot be joined. -/
theorem not_enabled_join_of_creates (hrun : run s₀ tr = some s)
    (honce : CreatedOnce s₀ (tr ++ [t₁, t₂])) (h : CreatesJoined t₁ t₂)
    (hfire : fire t₁ s = some s₁) : ¬ Enabled t₂ s ∧ ¬ Enabled t₂ s₁ := by
  obtain ⟨b, hop₁, hop₂⟩ := h
  have hembryo : s.HasThread b ⟨.embryo⟩ :=
    hasThread_embryo_of_created hrun honce (by simp) hop₁
  have hjoin : ∀ u, Enabled t₂ u → u.HasThread b ⟨.exited⟩ := by
    intro u hu
    obtain ⟨u', hstep⟩ := enabled_iff_step.mp hu
    obtain ⟨q, op⟩ := t₂
    obtain rfl : op = _ := hop₂
    cases hstep with
    | threadJoin _ hexited => exact hexited
  refine ⟨fun h => hembryo.not_exited (hjoin s h), fun h => ?_⟩
  obtain ⟨th, hth, heffect⟩ := (fire_eq_some_iff_step.mp hfire).thread hembryo
  have hexited := hjoin s₁ h
  cases heffect with
  | unrelated hop => exact hop hop₁
  | create _ => cases hth.unique hexited
  | exit _ hrunning _ => cases hrunning

/-- **Soundness of the default dependency relation.** Transitions of two runners which it
does not call dependent are independent in every reachable state: if the first is enabled,
executing it does not change whether the second is, and if both are enabled, the two orders
of execution lead to the same state. -/
theorem independent_of_not_areDependent (hrun : run s₀ tr = some s)
    (honce : CreatedOnce s₀ (tr ++ [t₁, t₂])) (hne : t₁.executor ≠ t₂.executor)
    (h : areDependent defaultDependencies t₁ t₂ = false) :
    (∀ s₁, fire t₁ s = some s₁ → (Enabled t₂ s ↔ Enabled t₂ s₁)) ∧
    (Enabled t₁ s → Enabled t₂ s → ∃ s₁ s₂ s', fire t₁ s = some s₁ ∧ fire t₂ s = some s₂ ∧
      fire t₂ s₁ = some s' ∧ fire t₁ s₂ = some s') := by
  have hcall : defaultDependencies.callOr true t₁ t₂ = false := by
    simpa [areDependent, hne] using h
  have hfp₁ := footprint_fire t₁ s.objidForRunner
  have hfp₂ := footprint_fire t₂ s.objidForRunner
  constructor
  · intro s₁ hfire
    by_cases hexc : CreatesJoined t₁ t₂
    · obtain ⟨hs, hs₁⟩ := not_enabled_join_of_creates hrun honce hexc hfire
      exact iff_of_false hs hs₁
    · have hwt : Enabled t₂ s ∨ Enabled t₂ s₁ → WellTyped s t₂ := by
        rintro (h₂ | h₂)
        · obtain ⟨u, hstep⟩ := enabled_iff_step.mp h₂
          exact hstep.wellTyped
        · obtain ⟨u, hstep⟩ := enabled_iff_step.mp h₂
          exact (fire_eq_some_iff_step.mp hfire).wellTyped_iff.mp hstep.wellTyped
      have transfer : WellTyped s t₂ → (Enabled t₂ s ↔ Enabled t₂ s₁) := fun hwt₂ =>
        hfp₁.isSome_iff hfp₂ rfl (footprints_disjoint hcall hrun honce hne
          (enabled_iff.mpr ⟨s₁, hfire⟩) hwt₂ hexc).1 hfire
      exact ⟨fun h₂ => (transfer (hwt (.inl h₂))).mp h₂, fun h₂ => (transfer (hwt (.inr h₂))).mpr h₂⟩
  · intro h₁ h₂
    obtain ⟨s₁, hs₁⟩ := enabled_iff.mp h₁
    obtain ⟨s₂, hs₂⟩ := enabled_iff.mp h₂
    have hexc : ¬ CreatesJoined t₁ t₂ := fun hexc =>
      (not_enabled_join_of_creates hrun honce hexc hs₁).1 h₂
    obtain ⟨h₁₂, h₂₁⟩ := footprints_disjoint hcall hrun honce hne h₁
      (fire_eq_some_iff_step.mp hs₂).wellTyped hexc
    obtain ⟨s', hs', hs''⟩ := hfp₁.commute
      (fun hobj hget => State.ext (funext hget) hobj) hfp₂ rfl h₁₂ h₂₁
      (h₁₂.mono_right Transition.writes_subset_reads) hs₁ hs₂
    exact ⟨s₁, s₂, s', hs₁, hs₂, hs', hs''⟩

/-- A runner which is to be created, its creator and two mutexes. -/
private def beforeCreation : State :=
  .ofRunnersAndObjects [⟨.running⟩, ⟨.embryo⟩]
    [.mutex ⟨.unlocked, 64, ridInvalid⟩, .mutex ⟨.unlocked, 128, ridInvalid⟩]

/-- Once the other runner has been created and has started, both lock a mutex, in either order. -/
theorem independent_of_not_areDependent_created :
    ∃ s s₁ s₂ s', run beforeCreation [⟨0, .threadCreate 1⟩, ⟨1, .threadStart⟩] = some s ∧
      fire ⟨0, .mutexLock 2⟩ s = some s₁ ∧ fire ⟨1, .mutexLock 3⟩ s = some s₂ ∧
      fire ⟨1, .mutexLock 3⟩ s₁ = some s' ∧ fire ⟨0, .mutexLock 2⟩ s₂ = some s' := by
  obtain ⟨s, hrun⟩ := Option.isSome_iff_exists.mp
    (show (run beforeCreation [⟨0, .threadCreate 1⟩, ⟨1, .threadStart⟩]).isSome = true by rfl)
  have honce : CreatedOnce beforeCreation ([⟨0, .threadCreate 1⟩, ⟨1, .threadStart⟩] ++
      [⟨0, .mutexLock 2⟩, ⟨1, .mutexLock 3⟩]) := by
    refine ⟨List.nodup_singleton 1, fun b hb => ?_⟩
    obtain rfl := List.mem_singleton.mp hb
    exact ⟨1, rfl, rfl⟩
  have henabled : Enabled ⟨0, .mutexLock 2⟩ s ∧ Enabled ⟨1, .mutexLock 3⟩ s := by
    have hlast : (run beforeCreation [⟨0, .threadCreate 1⟩, ⟨1, .threadStart⟩]).map (fun s =>
        decide (Enabled ⟨0, .mutexLock 2⟩ s ∧ Enabled ⟨1, .mutexLock 3⟩ s)) = some true := by rfl
    rw [hrun, Option.map_some, Option.some.injEq, decide_eq_true_iff] at hlast
    exact hlast
  obtain ⟨s₁, s₂, s', h⟩ :=
    (independent_of_not_areDependent hrun honce (by decide) (by decide)).2 henabled.1 henabled.2
  exact ⟨s, s₁, s₂, s', hrun, h⟩

end McMini
