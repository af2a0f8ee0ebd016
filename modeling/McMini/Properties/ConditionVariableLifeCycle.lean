import McMini.Properties.MutualExclusion

/-!
# The life cycle of condition variables

A condition variable which was not initialized, or which was destroyed, can only be
initialized: the other operations on it should have no effect, and no transition but the
initialization should bring it back to life.

The operations are attempted by any threads in any order, and those which are enabled take
effect. Waiting, signaling, broadcasting and destroying test the state of the condition
variable. Falling asleep does not: a thread which holds the mutex and calls
`pthread_cond_wait` on a destroyed condition variable is queued on it, and makes a usable
condition variable of it. The life cycle is respected exactly when no thread tries this
(`conditionVariable_lifeCycle`).
-/

namespace McMini

open Foundation

/-- The transition is an operation on the condition variable other than its initialization. -/
def Transition.UsesConditionVariable (t : Transition) (c : ObjId) : Prop :=
  (∃ i, t.op = .conditionVariableEnqueueThread c i) ∨ (∃ i, t.op = .conditionVariableWait c i) ∨
    t.op = .conditionVariableSignal c ∨ t.op = .conditionVariableBroadcast c ∨
    t.op = .conditionVariableDestroy c

/-- The state of the condition variable `c` is `tag`. -/
def HasTag (s : State) (c : ObjId) (tag : ConditionVariableState) : Prop :=
  ∃ cv, s.objectState c = some (.conditionVariable cv) ∧ cv.currentState = tag

/-- The condition variable `c` can only be initialized. -/
def Dead (s : State) (c : ObjId) : Prop := HasTag s c .uninitialized ∨ HasTag s c .destroyed

/-- Applying the transition yields a status other than `exists` and leaves the state
unchanged. -/
def TakesNoEffect (t : Transition) (s : State) : Prop :=
  ∀ d status, t.applyTo s = .ok (d, status) → status ≠ .exists' ∧ d.toState = s

/-- The condition variable `c` has been destroyed, and not been initialized since. -/
def DestroyedAfter (s₀ : State) (c : ObjId) (tr : List Transition) : Prop :=
  SinceLast (fun t => t.op = .conditionVariableDestroy c)
    (fun t => t.op = .conditionVariableInit c) (HasTag s₀ c .destroyed) (executed fire s₀ tr)

/-- What is expected of the condition variable `c` when the transitions `tr` are attempted. -/
structure LifeCycle (s₀ : State) (c : ObjId) (tr : List Transition) : Prop where
  destroyed : ∀ pre t, pre ++ [t] <+: tr → DestroyedAfter s₀ c pre →
    t.UsesConditionVariable c → TakesNoEffect t (attempts fire s₀ pre)
  uninitialized : ∀ pre t, pre ++ [t] <+: tr → HasTag (attempts fire s₀ pre) c .uninitialized →
    t.UsesConditionVariable c → TakesNoEffect t (attempts fire s₀ pre)
  leaves : ∀ pre t tag, pre ++ [t] <+: tr → tag = .uninitialized ∨ tag = .destroyed →
    HasTag (attempts fire s₀ pre) c tag → ¬ HasTag (attempts fire s₀ (pre ++ [t])) c tag →
    t.op = .conditionVariableInit c

/-- No active thread which holds the mutex attempts to wait on the condition variable when it
can only be initialized. -/
def WaitsOnLive (s₀ : State) (c : ObjId) (tr : List Transition) : Prop :=
  ∀ pre p i, pre ++ [⟨p, .conditionVariableEnqueueThread c i⟩] <+: tr →
    Dead (attempts fire s₀ pre) c →
    ¬ ((attempts fire s₀ pre).Active p ∧ LockedBy (attempts fire s₀ pre) i p)

section

variable {s₀ s s' : State} {c : ObjId} {t : Transition} {tr : List Transition}
  {cv cv' cv₀ : ConditionVariable} {tag tag' : ConditionVariableState}

/-- A transition takes effect exactly when it is enabled. -/
theorem takesNoEffect_iff : TakesNoEffect t s ↔ ¬ Enabled t s := by
  rw [enabled_iff]
  constructor
  · rintro h ⟨s', hfire⟩
    obtain ⟨hactive, d, hmodify, -⟩ := fire_eq_some_iff.mp hfire
    exact (h d _ (Transition.applyTo_eq_ok_exists.mpr ⟨hactive, hmodify⟩)).1 rfl
  · intro h d status happly
    have hstatus : status ≠ .exists' := by
      rintro rfl
      obtain ⟨hactive, hmodify⟩ := Transition.applyTo_eq_ok_exists.mp happly
      exact h ⟨_, fire_eq_some_iff.mpr ⟨hactive, d, hmodify, rfl⟩⟩
    refine ⟨hstatus, ?_⟩
    -- every branch in which the status is another one returns the state it was given
    rw [Transition.applyTo, Transition.applyBy] at happly
    obtain ⟨th, -, happly⟩ := bind_eq_ok.mp happly
    split_ifs at happly
    · obtain ⟨rfl, -⟩ := Prod.mk.inj (Except.ok.inj happly)
      exact DiffState.toState_ofState s
    · obtain ⟨⟨st, d'⟩, -, happly⟩ := bind_eq_ok.mp happly
      by_cases hst : st = .exists'
      · simp only [hst, if_true] at happly
        exact absurd (Prod.mk.inj (Except.ok.inj happly)).2.symm hstatus
      · simp only [if_neg hst] at happly
        obtain ⟨rfl, -⟩ := Prod.mk.inj (Except.ok.inj happly)
        exact DiffState.toState_ofState s

theorem hasTag_iff (hc : s.objectState c = some (.conditionVariable cv)) :
    HasTag s c tag ↔ cv.currentState = tag := by
  simp [HasTag, hc]

theorem dead_iff (hc : s.objectState c = some (.conditionVariable cv)) :
    Dead s c ↔ ¬ cv.Usable := by
  rw [Dead, hasTag_iff hc, hasTag_iff hc]
  cases htag : cv.currentState <;>
    simp [ConditionVariable.Usable, ConditionVariable.isUninitialized,
      ConditionVariable.isDestroyed, htag]

/-! ### One attempt -/

/-- An enabled operation on a condition variable which can only be initialized is that of a
thread which falls asleep. -/
theorem enabled_uses_iff (hc : s.objectState c = some (.conditionVariable cv))
    (hdead : Dead s c) (huses : t.UsesConditionVariable c) :
    Enabled t s ↔ ∃ i, t.op = .conditionVariableEnqueueThread c i ∧ s.Active t.executor ∧
      LockedBy s i t.executor := by
  have hunusable := (dead_iff hc).mp hdead
  rw [enabled_iff_step]
  constructor
  · rintro ⟨s', hstep⟩
    obtain ⟨cv', -, heffect⟩ := hstep.conditionVariable hc
    cases heffect with
    | unchanged _ henqueue hwait hdestroy hsignal hbroadcast =>
      rcases huses with ⟨i, hop⟩ | ⟨i, hop⟩ | hop | hop | hop
      · exact absurd hop (henqueue i)
      · exact absurd hop (hwait i)
      · exact absurd (hsignal hop).1 hunusable
      · exact absurd (hbroadcast hop).1 hunusable
      · exact absurd hop hdestroy
    | init hop => simp [Transition.UsesConditionVariable, hop] at huses
    | enqueue hop hm hheld => exact ⟨_, hop, hstep.active, _, hm, hheld⟩
    | wait _ _ husable => exact absurd husable hunusable
    | signal _ husable => exact absurd husable hunusable
    | broadcast _ husable => exact absurd husable hunusable
    | destroy _ husable => exact absurd husable hunusable
  · obtain ⟨p, op⟩ := t
    rintro ⟨i, rfl, hactive, m, hm, hheld⟩
    exact ⟨_, .conditionVariableEnqueueThread hactive hc hm hheld⟩

/-- A condition variable is destroyed by `condition_variable_destroy`, and stays destroyed until
it is initialized or a thread falls asleep on it. -/
theorem ConditionVariableEffect.destroyed_iff (h : ConditionVariableEffect s t c cv cv') :
    cv'.currentState = .destroyed ↔ t.op = .conditionVariableDestroy c ∨
      t.op ≠ .conditionVariableInit c ∧ (∀ i, t.op ≠ .conditionVariableEnqueueThread c i) ∧
        cv.currentState = .destroyed := by
  have usable : ∀ {cv : ConditionVariable}, cv.Usable → cv.currentState ≠ .destroyed := by
    intro cv husable hdestroyed
    simp [ConditionVariable.Usable, ConditionVariable.isDestroyed, hdestroyed] at husable
  cases h with
  | unchanged hinit henqueue _ hdestroy => simp [hinit, henqueue, hdestroy]
  | init hop => simp [hop]
  | enqueue hop => simp [hop, ConditionVariable.enqueueThread]
  | wait hop _ husable _ _ _ hnew =>
    have hnew' := ConditionVariable.usable_of_currentState (ConditionVariable.wait_currentState hnew)
    simp [hop, usable husable, usable hnew']
  | signal hop husable =>
    have hnew : cv.signal.Usable := ConditionVariable.usable_of_currentState rfl
    simp [hop, usable husable, usable hnew]
  | broadcast hop husable =>
    have hnew : (cv.broadcast t.executor).Usable :=
      ConditionVariable.usable_of_currentState (p := (cv.broadcast t.executor).policy) rfl
    simp [hop, usable husable, usable hnew]
  | destroy hop _ => simp [hop]

/-- A condition variable which can only be initialized is kept as it is, unless it is
initialized or a thread falls asleep on it. -/
theorem ConditionVariableEffect.of_not_usable (h : ConditionVariableEffect s t c cv cv')
    (hcv : ¬ cv.Usable) : cv' = cv ∨ t.op = .conditionVariableInit c ∨
      ∃ i, t.op = .conditionVariableEnqueueThread c i ∧ LockedBy s i t.executor := by
  cases h with
  | unchanged => exact .inl rfl
  | init hop => exact .inr (.inl hop)
  | enqueue hop hm hheld => exact .inr (.inr ⟨_, hop, _, hm, hheld⟩)
  | wait _ _ husable => exact absurd husable hcv
  | signal _ husable => exact absurd husable hcv
  | broadcast _ husable => exact absurd husable hcv
  | destroy _ husable => exact absurd husable hcv

/-! ### Attempts along a run -/

/-- An attempt is a step, or changes nothing. -/
theorem attempt_cases (t : Transition) (s : State) :
    Step s t (attempt fire s t) ∧ (fire t s).isSome = true ∨
      attempt fire s t = s ∧ (fire t s).isSome = false := by
  cases hfire : fire t s with
  | none => exact .inr ⟨attempt_of_eq_none hfire, rfl⟩
  | some s' =>
    rw [attempt_of_eq_some hfire]
    exact .inl ⟨fire_eq_some_iff_step.mp hfire, rfl⟩

/-- A condition variable stays one whatever is attempted. -/
theorem conditionVariable_attempts (hc : s₀.objectState c = some (.conditionVariable cv₀))
    (tr : List Transition) :
    ∃ cv, (attempts fire s₀ tr).objectState c = some (.conditionVariable cv) := by
  induction tr using List.reverseRecOn with
  | nil => exact ⟨cv₀, hc⟩
  | append_singleton tr t ih =>
    obtain ⟨cv, hcv⟩ := ih
    rw [attempts_concat]
    rcases attempt_cases t (attempts fire s₀ tr) with ⟨hstep, -⟩ | ⟨heq, -⟩
    · obtain ⟨cv', hcv', -⟩ := hstep.conditionVariable hcv
      exact ⟨cv', hcv'⟩
    · exact ⟨cv, by rw [heq]; exact hcv⟩

theorem destroyedAfter_concat_of_enabled
    (h : (fire t (attempts fire s₀ tr)).isSome = true) :
    DestroyedAfter s₀ c (tr ++ [t]) ↔ t.op = .conditionVariableDestroy c ∨
      t.op ≠ .conditionVariableInit c ∧ DestroyedAfter s₀ c tr := by
  rw [DestroyedAfter, executed_concat, if_pos h, sinceLast_concat]
  rfl

theorem destroyedAfter_concat_of_not_enabled
    (h : (fire t (attempts fire s₀ tr)).isSome = false) :
    DestroyedAfter s₀ c (tr ++ [t]) ↔ DestroyedAfter s₀ c tr := by
  rw [DestroyedAfter, executed_concat, if_neg (by simp [h]), List.append_nil]
  rfl

theorem WaitsOnLive.of_prefix {pre : List Transition} (h : WaitsOnLive s₀ c tr)
    (hpre : pre <+: tr) : WaitsOnLive s₀ c pre :=
  fun pre' p i hwait => h pre' p i (hwait.trans hpre)

/-- A transition executed on a condition variable which can only be initialized is not a thread
falling asleep on it. -/
theorem WaitsOnLive.ne_enqueue (h : WaitsOnLive s₀ c (tr ++ [t]))
    (hc : (attempts fire s₀ tr).objectState c = some (.conditionVariable cv))
    (hdead : Dead (attempts fire s₀ tr) c)
    (hfire : (fire t (attempts fire s₀ tr)).isSome = true) (i : ObjId) :
    t.op ≠ .conditionVariableEnqueueThread c i := by
  intro hop
  obtain ⟨j, hop', hactive, hlocked⟩ := (enabled_uses_iff hc hdead (.inl ⟨i, hop⟩)).mp hfire
  obtain ⟨p, op⟩ := t
  obtain rfl : op = .conditionVariableEnqueueThread c j := hop'
  exact h tr p j List.prefix_rfl hdead ⟨hactive, hlocked⟩

/-- A condition variable in the state `destroyed` was destroyed, and not initialized since. -/
theorem destroyedAfter_of_hasTag (hc : s₀.objectState c = some (.conditionVariable cv₀))
    (h : HasTag (attempts fire s₀ tr) c .destroyed) : DestroyedAfter s₀ c tr := by
  induction tr using List.reverseRecOn with
  | nil => exact sinceLast_nil.mpr h
  | append_singleton tr t ih =>
    rw [attempts_concat] at h
    rcases attempt_cases t (attempts fire s₀ tr) with ⟨hstep, hfire⟩ | ⟨heq, hfire⟩
    · rw [destroyedAfter_concat_of_enabled hfire]
      obtain ⟨cv, hcv⟩ := conditionVariable_attempts hc tr
      obtain ⟨cv', hcv', heffect⟩ := hstep.conditionVariable hcv
      rw [hasTag_iff hcv', heffect.destroyed_iff] at h
      exact h.imp_right fun ⟨hinit, _, htag⟩ => ⟨hinit, ih ((hasTag_iff hcv).mpr htag)⟩
    · rw [destroyedAfter_concat_of_not_enabled hfire]
      rw [heq] at h
      exact ih h

/-- While threads wait on live condition variables only, a condition variable which was
destroyed stays so until it is initialized. -/
theorem hasTag_of_destroyedAfter (hc : s₀.objectState c = some (.conditionVariable cv₀))
    (hlive : WaitsOnLive s₀ c tr) (h : DestroyedAfter s₀ c tr) :
    HasTag (attempts fire s₀ tr) c .destroyed := by
  induction tr using List.reverseRecOn with
  | nil => exact sinceLast_nil.mp h
  | append_singleton tr t ih =>
    rw [attempts_concat]
    have ih := ih (hlive.of_prefix (List.prefix_append _ _))
    rcases attempt_cases t (attempts fire s₀ tr) with ⟨hstep, hfire⟩ | ⟨heq, hfire⟩
    · rw [destroyedAfter_concat_of_enabled hfire] at h
      obtain ⟨cv, hcv⟩ := conditionVariable_attempts hc tr
      obtain ⟨cv', hcv', heffect⟩ := hstep.conditionVariable hcv
      rw [hasTag_iff hcv', heffect.destroyed_iff]
      refine h.imp_right fun ⟨hinit, hdestroyed⟩ => ?_
      have htag := ih hdestroyed
      exact ⟨hinit, hlive.ne_enqueue hcv (.inr htag) hfire, (hasTag_iff hcv).mp htag⟩
    · rw [destroyedAfter_concat_of_not_enabled hfire] at h
      rw [heq]
      exact ih h

/-- **The life cycle of condition variables.** After its destruction no operation on a condition
variable but the initialization has an effect, nor has one before the first initialization, and
no other transition changes its state: if and only if no active thread which holds the mutex
attempts to wait on the condition variable when it can only be initialized. -/
theorem conditionVariable_lifeCycle (hc : s₀.objectState c = some (.conditionVariable cv₀)) :
    LifeCycle s₀ c tr ↔ WaitsOnLive s₀ c tr := by
  constructor
  · rintro cycle pre p i hwait hdead ⟨hactive, hlocked⟩
    obtain ⟨cv, hcv⟩ := conditionVariable_attempts hc pre
    have huses : Transition.UsesConditionVariable ⟨p, .conditionVariableEnqueueThread c i⟩ c :=
      .inl ⟨i, rfl⟩
    refine takesNoEffect_iff.mp ?_ ((enabled_uses_iff hcv hdead huses).mpr
      ⟨i, rfl, hactive, hlocked⟩)
    rcases hdead with htag | htag
    · exact cycle.uninitialized pre _ hwait htag huses
    · exact cycle.destroyed pre _ hwait (destroyedAfter_of_hasTag hc htag) huses
  · intro hlive
    have noEffect : ∀ {pre t}, pre ++ [t] <+: tr → Dead (attempts fire s₀ pre) c →
        t.UsesConditionVariable c → TakesNoEffect t (attempts fire s₀ pre) := by
      intro pre t hpre hdead huses
      obtain ⟨cv, hcv⟩ := conditionVariable_attempts hc pre
      rw [takesNoEffect_iff]
      intro henabled
      obtain ⟨i, hop, -⟩ := (enabled_uses_iff hcv hdead huses).mp henabled
      exact (hlive.of_prefix hpre).ne_enqueue hcv hdead henabled i hop
    refine ⟨fun pre t hpre hdestroyed huses => ?_, fun pre t hpre htag huses =>
      noEffect hpre (.inl htag) huses, fun pre t tag hpre htag hbefore hafter => ?_⟩
    · have hlive' := hlive.of_prefix ((List.prefix_append _ _).trans hpre)
      exact noEffect hpre (.inr (hasTag_of_destroyedAfter hc hlive' hdestroyed)) huses
    · obtain ⟨cv, hcv⟩ := conditionVariable_attempts hc pre
      have hdead : Dead (attempts fire s₀ pre) c := by
        rcases htag with rfl | rfl
        · exact .inl hbefore
        · exact .inr hbefore
      rw [attempts_concat] at hafter
      rcases attempt_cases t (attempts fire s₀ pre) with ⟨hstep, hfire⟩ | ⟨heq, -⟩
      · obtain ⟨cv', hcv', heffect⟩ := hstep.conditionVariable hcv
        rcases heffect.of_not_usable ((dead_iff hcv).mp hdead) with rfl | hop | ⟨i, hop, -⟩
        · rw [hasTag_iff hcv'] at hafter
          exact absurd ((hasTag_iff hcv).mp hbefore) hafter
        · exact hop
        · exact absurd hop ((hlive.of_prefix hpre).ne_enqueue hcv hdead hfire i)
      · rw [heq] at hafter
        exact absurd hbefore hafter

end

/-- One running runner, one free mutex and one initialized condition variable. -/
private def oneMutexOneCondition : State :=
  .ofRunnersAndObjects [⟨.running⟩]
    [.mutex ⟨.unlocked, 64, ridInvalid⟩, .conditionVariable { currentState := .initialized }]

/-- A condition variable is destroyed, and signaled in vain. -/
theorem conditionVariable_lifeCycle_destroy :
    LifeCycle oneMutexOneCondition 2
      [⟨0, .conditionVariableDestroy 2⟩, ⟨0, .conditionVariableSignal 2⟩] := by
  have hc : oneMutexOneCondition.objectState 2 =
      some (.conditionVariable { currentState := .initialized }) := rfl
  refine (conditionVariable_lifeCycle hc).mpr ?_
  intro pre p i hwait
  have hmem := hwait.subset (List.mem_append_right pre (List.mem_singleton_self _))
  simp at hmem

/-- A thread locks the mutex, destroys the condition variable, and waits on it: it is queued. -/
theorem wait_after_destroy :
    ¬ LifeCycle oneMutexOneCondition 2 [⟨0, .mutexLock 1⟩, ⟨0, .conditionVariableDestroy 2⟩,
      ⟨0, .conditionVariableEnqueueThread 2 1⟩] := by
  intro cycle
  have hdestroyed : DestroyedAfter oneMutexOneCondition 2
      [⟨0, .mutexLock 1⟩, ⟨0, .conditionVariableDestroy 2⟩] :=
    .inl ⟨[⟨0, .mutexLock 1⟩], ⟨0, .conditionVariableDestroy 2⟩, [], rfl, rfl, by simp⟩
  have hnone := cycle.destroyed _ ⟨0, .conditionVariableEnqueueThread 2 1⟩ List.prefix_rfl
    hdestroyed (.inl ⟨1, rfl⟩)
  exact takesNoEffect_iff.mp hnone (by decide)

end McMini
