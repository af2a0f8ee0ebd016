import McMini.Model.Relations
import McMini.Properties.ThreadLifeCycle

/-!
# Which enabled transitions the co-enabledness relation misses

The search ignores a race between two transitions which the relation says are never
enabled together, so the relation must hold of every two transitions which are. It does,
except for three kinds of pairs on one condition variable, which it rules out although
both can be enabled (`areCoenabled_iff_of_enabled`):

* a signal and a wait: a signal does not need a sleeping thread, and a thread signaled
  before can wake up while another signal is pending;
* a destruction and a wait: after a broadcast the queue is empty, so that the condition
  variable can be destroyed while the released threads have yet to wake up;
* a destruction and a signal, neither of which needs a sleeping thread.

The other pairs the relation excludes are never enabled together: only the holder of a
mutex unlocks it and nobody else can lock it, a thread which is created is not yet active,
and a thread which is joined is not active any more.
-/

namespace McMini

/-- The pairs of operations on one condition variable which the relation excludes although
they can be enabled together, in one of the two orders. -/
def ConditionVariableConflict (t₁ t₂ : Transition) : Prop :=
  ∃ c, (t₁.op = .conditionVariableSignal c ∧ ∃ m, t₂.op = .conditionVariableWait c m) ∨
    (t₁.op = .conditionVariableDestroy c ∧ ∃ m, t₂.op = .conditionVariableWait c m) ∨
    (t₁.op = .conditionVariableDestroy c ∧ t₂.op = .conditionVariableSignal c)

variable {s₀ s : State} {tr : List Transition} {t₁ t₂ : Transition}

/-- A transition which creates a thread is not enabled together with one of the thread. -/
theorem created_ne_executor (hrun : run s₀ tr = some s) {ts : List Transition}
    (honce : CreatedOnce s₀ (tr ++ ts)) (hmem : t₁ ∈ ts) {b : RunnerId}
    (hop : t₁.op = .threadCreate b) (h₂ : Enabled t₂ s) : b ≠ t₂.executor := by
  rintro rfl
  obtain ⟨s', hstep⟩ := enabled_iff_step.mp h₂
  exact (hasThread_embryo_of_created hrun honce hmem hop).not_active hstep.active

/-- A transition which joins a thread is not enabled together with one of the thread. -/
theorem joined_ne_executor {b : RunnerId} (hop : t₁.op = .threadJoin b) (h₁ : Enabled t₁ s)
    (h₂ : Enabled t₂ s) : b ≠ t₂.executor := by
  rintro rfl
  obtain ⟨s₂, hstep₂⟩ := enabled_iff_step.mp h₂
  obtain ⟨s₁, hstep₁⟩ := enabled_iff_step.mp h₁
  obtain ⟨p, op⟩ := t₁
  obtain rfl : op = _ := hop
  cases hstep₁ with
  | threadJoin _ hexited => cases hstep₂.active.unique hexited

/-- A mutex is not locked and unlocked next by two different runners. -/
theorem lock_ne_unlock {m m' : ObjId} (hop₁ : t₁.op = .mutexLock m)
    (hop₂ : t₂.op = .mutexUnlock m') (h₁ : Enabled t₁ s) (h₂ : Enabled t₂ s) : m ≠ m' := by
  rintro rfl
  obtain ⟨s₁, hstep₁⟩ := enabled_iff_step.mp h₁
  obtain ⟨s₂, hstep₂⟩ := enabled_iff_step.mp h₂
  obtain ⟨p, op₁⟩ := t₁
  obtain ⟨q, op₂⟩ := t₂
  obtain rfl : op₁ = _ := hop₁
  obtain rfl : op₂ = _ := hop₂
  cases hstep₁ with
  | mutexLock _ hm hfree =>
    cases hstep₂ with
    | mutexUnlock _ hm' hheld =>
      cases hm.symm.trans hm'
      simp [Mutex.isLocked, (Mutex.isLockedBy_iff.mp hheld).1] at hfree

/-- A condition variable is no mutex. -/
theorem signal_ne_unlock {c m : ObjId} (hop₁ : t₁.op = .conditionVariableSignal c)
    (hop₂ : t₂.op = .mutexUnlock m) (h₁ : Enabled t₁ s) (h₂ : Enabled t₂ s) : c ≠ m := by
  rintro rfl
  obtain ⟨s₁, hstep₁⟩ := enabled_iff_step.mp h₁
  obtain ⟨s₂, hstep₂⟩ := enabled_iff_step.mp h₂
  have hc := hstep₁.wellTyped.operand (i := c) (by simp [hop₁, Operation.operands]; rfl)
  have hm := hstep₂.wellTyped.operand (i := c) (by simp [hop₂, Operation.operands]; rfl)
  cases hc.symm.trans hm

/-- The relation rules out the three kinds of pairs, in both orders. -/
theorem ConditionVariableConflict.callOr_eq_false (h : ConditionVariableConflict t₁ t₂) :
    defaultCoenabledness.callOr true t₁ t₂ = false ∧
      defaultCoenabledness.callOr true t₂ t₁ = false := by
  obtain ⟨c, ⟨h₁, m, h₂⟩ | ⟨h₁, m, h₂⟩ | ⟨h₁, h₂⟩⟩ := h <;>
    simp [callOr_defaultCoenabledness, h₁, h₂]

/-- The relation rules out no other pair of enabled transitions of two runners. -/
theorem callOr_coenabled_eq_true (hrun : run s₀ tr = some s) {ts : List Transition}
    (honce : CreatedOnce s₀ (tr ++ ts)) (hmem₁ : t₁ ∈ ts) (hmem₂ : t₂ ∈ ts)
    (h₁ : Enabled t₁ s) (h₂ : Enabled t₂ s) (h₁₂ : ¬ ConditionVariableConflict t₁ t₂)
    (h₂₁ : ¬ ConditionVariableConflict t₂ t₁) :
    defaultCoenabledness.callOr true t₁ t₂ = true := by
  by_contra hfalse
  rw [Bool.not_eq_true, callOr_defaultCoenabledness] at hfalse
  split at hfalse
  -- the entries which answer `true` are settled; the others compare two identifiers
  all_goals first
    | exact Bool.noConfusion hfalse
    | rw [bne_eq_false_iff_eq] at hfalse
  case h_1 hop₁ hop₂ => exact lock_ne_unlock hop₁ hop₂ h₁ h₂ hfalse
  case h_2 hop₁ hop₂ => exact lock_ne_unlock hop₂ hop₁ h₂ h₁ hfalse
  case h_3 hop₁ hop₂ => exact h₁₂ ⟨_, .inl ⟨hop₁, _, hfalse ▸ hop₂⟩⟩
  case h_4 hop₁ hop₂ => exact h₂₁ ⟨_, .inl ⟨hop₂, _, hfalse ▸ hop₁⟩⟩
  case h_5 hop₁ hop₂ => exact signal_ne_unlock hop₁ hop₂ h₁ h₂ hfalse
  case h_6 hop₁ hop₂ => exact signal_ne_unlock hop₂ hop₁ h₂ h₁ hfalse
  case h_7 hop₁ hop₂ => exact h₁₂ ⟨_, .inr (.inl ⟨hop₁, _, hfalse ▸ hop₂⟩)⟩
  case h_8 hop₁ hop₂ => exact h₂₁ ⟨_, .inr (.inl ⟨hop₂, _, hfalse ▸ hop₁⟩)⟩
  case h_9 hop₁ hop₂ => exact h₁₂ ⟨_, .inr (.inr ⟨hop₁, hfalse ▸ hop₂⟩)⟩
  case h_10 hop₁ hop₂ => exact h₂₁ ⟨_, .inr (.inr ⟨hop₂, hfalse ▸ hop₁⟩)⟩
  case h_17 hop => exact created_ne_executor hrun honce hmem₁ hop h₂ hfalse
  case h_18 hop => exact joined_ne_executor hop h₁ h₂ hfalse
  case h_19 hop _ _ _ _ _ _ _ _ => exact created_ne_executor hrun honce hmem₂ hop h₁ hfalse
  case h_20 hop _ _ _ _ _ _ _ _ => exact joined_ne_executor hop h₂ h₁ hfalse

/-- Enabled transitions of two runners are found co-enabled unless they are one of the
three excluded pairs. -/
theorem areCoenabled_iff_of_enabled (hrun : run s₀ tr = some s)
    (honce : CreatedOnce s₀ (tr ++ [t₁, t₂])) (hne : t₁.executor ≠ t₂.executor)
    (h₁ : Enabled t₁ s) (h₂ : Enabled t₂ s) :
    (areCoenabled defaultCoenabledness t₁ t₂ = true ∧
        areCoenabled defaultCoenabledness t₂ t₁ = true) ↔
      ¬ ConditionVariableConflict t₁ t₂ ∧ ¬ ConditionVariableConflict t₂ t₁ := by
  have hmem₁ : t₁ ∈ [t₁, t₂] := by simp
  have hmem₂ : t₂ ∈ [t₁, t₂] := by simp
  simp only [areCoenabled, bne_iff_ne.mpr hne, bne_iff_ne.mpr hne.symm, Bool.true_and]
  constructor
  · rintro ⟨h₁₂, -⟩
    refine ⟨fun h => ?_, fun h => ?_⟩
    · exact Bool.false_ne_true (h.callOr_eq_false.1.symm.trans h₁₂)
    · exact Bool.false_ne_true (h.callOr_eq_false.2.symm.trans h₁₂)
  · rintro ⟨h₁₂, h₂₁⟩
    exact ⟨callOr_coenabled_eq_true hrun honce hmem₁ hmem₂ h₁ h₂ h₁₂ h₂₁,
      callOr_coenabled_eq_true hrun honce hmem₂ hmem₁ h₂ h₁ h₂₁ h₁₂⟩

/-- Two runners, a mutex and a condition variable. -/
private def signalAndWait : State :=
  .ofRunnersAndObjects [⟨.running⟩, ⟨.running⟩]
    [.mutex ⟨.unlocked, 64, ridInvalid⟩, .conditionVariable { currentState := .initialized }]

/-- The relation misses pairs of enabled transitions: after runner 0 fell asleep and
runner 1 sent a signal, runner 0 can wake up and runner 1 can signal again. -/
theorem areCoenabled_misses :
    ¬ ∀ (s₀ s : State) (tr : List Transition) (t₁ t₂ : Transition), run s₀ tr = some s →
      CreatedOnce s₀ (tr ++ [t₁, t₂]) → t₁.executor ≠ t₂.executor → Enabled t₁ s → Enabled t₂ s →
      areCoenabled defaultCoenabledness t₁ t₂ = true ∧
        areCoenabled defaultCoenabledness t₂ t₁ = true := by
  intro h
  have := h signalAndWait _
    [⟨0, .mutexLock 2⟩, ⟨0, .conditionVariableEnqueueThread 3 2⟩, ⟨1, .conditionVariableSignal 3⟩]
    ⟨0, .conditionVariableWait 3 2⟩ ⟨1, .conditionVariableSignal 3⟩ rfl
    ⟨List.nodup_nil, fun b hb => by simp [createTargets, Operation.created] at hb⟩ (by decide)
    (by decide) (by decide)
  exact absurd this.1 (by decide)

/-- Two running runners, a mutex and a semaphore. -/
private def lockAndPost : State :=
  .ofRunnersAndObjects [⟨.running⟩, ⟨.running⟩]
    [.mutex ⟨.unlocked, 64, ridInvalid⟩, .semaphore (.ofCount 0)]

/-- A lock and a post of two runners which are both enabled are found co-enabled. -/
theorem areCoenabled_iff_of_enabled_lock_post :
    areCoenabled defaultCoenabledness ⟨0, .mutexLock 2⟩ ⟨1, .semPost 3⟩ = true := by
  have hrun : run lockAndPost [] = some lockAndPost := rfl
  have honce : CreatedOnce lockAndPost ([] ++ [⟨0, .mutexLock 2⟩, ⟨1, .semPost 3⟩]) :=
    ⟨List.nodup_nil, fun b hb => by simp [createTargets, Operation.created] at hb⟩
  refine ((areCoenabled_iff_of_enabled hrun honce (by decide) (by decide) (by decide)).mpr
    ⟨?_, ?_⟩).1
  · rintro ⟨c, ⟨h, -⟩ | ⟨h, -⟩ | ⟨h, -⟩⟩ <;> cases h
  · rintro ⟨c, ⟨h, -⟩ | ⟨h, -⟩ | ⟨h, -⟩⟩ <;> cases h

end McMini
