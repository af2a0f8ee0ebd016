import McMini.Model.Execution

/-!
# Wake-ups across a checkpoint

When a program is restarted from a checkpoint, the constructor of a condition variable
rebuilds its policy from the recorded list of waiting threads. A thread recorded as
`CV_SIGNALED` was woken before the checkpoint and resumes: it executes its pending enqueue
and then completes its wait, with no further signal.

The constructor puts all signaled threads into **one** wake group, of which exactly one may
wake: of two or more, the first to complete its wait leaves the others asleep, whatever else
the program does. And the pending enqueue is enabled only while the mutex is locked by the
thread. The thread has nothing else to execute, so it must be the recorded owner. All signaled
threads can resume exactly when there is none, or one which is recorded as the owner of the
mutex (`signaled_threads_resume_iff`).
-/

namespace McMini

open Foundation ConditionVariableArbitraryPolicy

/-- The threads recorded as signaled, in recorded order. -/
def signaledThreads (threadStates : List (RunnerId × ConditionVariableStatus)) : List RunnerId :=
  (threadStates.filter fun ts => ts.2 == .signaled).map Prod.fst

/-- What a thread which was waiting executes after the restart: its pending enqueue, which
releases the mutex, and then its wait, which takes it again. -/
def resume (c m : ObjId) (tid : RunnerId) : List Transition :=
  [⟨tid, .conditionVariableEnqueueThread c m⟩, ⟨tid, .conditionVariableWait c m⟩]

/-- The threads which complete a wait, in order. -/
def completedWaits (c m : ObjId) (tr : List Transition) : List RunnerId :=
  (tr.filter fun t => t.op = .conditionVariableWait c m).map (·.executor)

/-- In the run the threads resume, and complete their waits in the given order. Each of them
begins with its pending enqueue and its wait, and nobody signals or broadcasts. What is executed
besides, in particular to release the mutex in between, is up to the program. -/
structure Resumes (c m : ObjId) (order : List RunnerId) (tr : List Transition) : Prop where
  protocol : ∀ tid ∈ order, resume c m tid <+: tr.filter fun t => t.executor = tid
  order : order.Sublist (completedWaits c m tr)
  unsignaled : ∀ t ∈ tr, t.op ≠ .conditionVariableSignal c ∧ t.op ≠ .conditionVariableBroadcast c

namespace ConditionVariable

variable {cv : ConditionVariable} {tid : RunnerId} {mutex : Addr} {count : ℤ}
  {state : ConditionVariableState} {threadStates : List (RunnerId × ConditionVariableStatus)}

private theorem foldl_addWaiterWithState (ts : List (RunnerId × ConditionVariableStatus))
    (p : ConditionVariableArbitraryPolicy) :
    (ts.foldl (fun p ts => addWaiterWithState p ts.1 ts.2) p).toConditionVariableDefaultPolicy =
      p.toConditionVariableDefaultPolicy := by
  induction ts generalizing p with
  | nil => rfl
  | cons t ts ih => exact ih _

/-- The rebuilt policy has one wake group, of all signaled threads, if there are any. -/
theorem construct_defaultPolicy :
    (construct state tid mutex count threadStates).policy.toConditionVariableDefaultPolicy =
      { broadcastEligibleThreads := ∅
        wakeGroups := if (signaledThreads threadStates).isEmpty then []
          else [signaledThreads threadStates] } := by
  unfold construct addToWakeGroups signaledThreads
  dsimp only
  split_ifs
  · exact foldl_addWaiterWithState _ _
  · rw [foldl_addWaiterWithState]
    rfl

end ConditionVariable

/-! ### The wake groups are used up -/

/-- How many more threads can leave without a signal, at most. -/
def ConditionVariableDefaultPolicy.releases (p : ConditionVariableDefaultPolicy) : ℕ :=
  p.wakeGroups.length + p.broadcastEligibleThreads.card

theorem ConditionVariableDefaultPolicy.releases_wakeThread {p p' : ConditionVariableDefaultPolicy}
    {tid : RunnerId} (h : p.wakeThread tid = some p') : p'.releases + 1 = p.releases := by
  unfold wakeThread at h
  split_ifs at h with heligible hgroup
  · obtain rfl := Option.some.inj h
    have hpos : 0 < p.broadcastEligibleThreads.card := Finset.card_pos.mpr ⟨tid, heligible⟩
    rw [releases, releases, List.length_map, Finset.card_erase_of_mem heligible]
    omega
  · obtain rfl := Option.some.inj h
    obtain ⟨wg, hwg, hmem⟩ := List.any_eq_true.mp hgroup
    have hpos : 0 < p.wakeGroups.length := List.length_pos_of_mem hwg
    simp only [releases, List.length_map, List.length_eraseP_of_mem hwg hmem]
    omega

variable {s s' : State} {c m : ObjId} {tid : RunnerId} {cv cv' : ConditionVariable}
  {t : Transition} {tr : List Transition} {mu : Mutex}

theorem completedWaits_concat : completedWaits c m (tr ++ [t]) =
    completedWaits c m tr ++ if t.op = .conditionVariableWait c m then [t.executor] else [] := by
  rw [completedWaits, List.filter_append, List.map_append]
  congr 1
  by_cases hop : t.op = .conditionVariableWait c m
  · rw [if_pos hop, List.filter_singleton, decide_eq_true hop]
    rfl
  · rw [if_neg hop, List.filter_singleton, decide_eq_false hop]
    rfl

/-- Without a signal or a broadcast, a wait uses up a release, and there are never more. -/
theorem releases_of_effect (h : ConditionVariableEffect s t c cv cv')
    (hsignal : t.op ≠ .conditionVariableSignal c)
    (hbroadcast : t.op ≠ .conditionVariableBroadcast c) :
    (if t.op = .conditionVariableWait c m then [t.executor] else []).length +
        cv'.policy.releases ≤ cv.policy.releases := by
  cases h with
  | unchanged _ _ hnot => simp [hnot m]
  | init hop => simp [hop, ConditionVariableDefaultPolicy.releases]
  | enqueue hop => simp [hop, ConditionVariable.enqueueThread_defaultPolicy]
  | wait hop _ _ _ _ _ hnew =>
    have hwoken := (ConditionVariable.wait_eq_some hnew).2.2.2.2
    rw [← ConditionVariableDefaultPolicy.releases_wakeThread hwoken]
    split_ifs
    · rw [List.length_singleton, Nat.add_comm]
    · rw [List.length_nil]
      omega
  | signal hop => exact absurd hop hsignal
  | broadcast hop => exact absurd hop hbroadcast
  | destroy hop => simp [hop, ConditionVariableDefaultPolicy.releases]

/-- In a run without a signal or a broadcast no more threads leave than could at its beginning. -/
theorem length_completedWaits_le (hrun : run s tr = some s')
    (hc : s.objectState c = some (.conditionVariable cv))
    (hunsignaled : ∀ t ∈ tr, t.op ≠ .conditionVariableSignal c ∧
      t.op ≠ .conditionVariableBroadcast c) :
    (completedWaits c m tr).length ≤ cv.policy.releases := by
  have hinvariant : ∃ cv', s'.objectState c = some (.conditionVariable cv') ∧
      (completedWaits c m tr).length + cv'.policy.releases ≤ cv.policy.releases := by
    refine run_induction (P := fun tr s' => (∀ t ∈ tr, t.op ≠ .conditionVariableSignal c ∧
      t.op ≠ .conditionVariableBroadcast c) →
        ∃ cv', s'.objectState c = some (.conditionVariable cv') ∧
          (completedWaits c m tr).length + cv'.policy.releases ≤ cv.policy.releases)
      (fun _ => ⟨cv, hc, (Nat.zero_add _).le⟩) ?_ hrun hunsignaled
    intro tr s₁ t s₂ _ ih hstep hunsignaled
    obtain ⟨cv₁, hc₁, hle⟩ := ih fun u hu => hunsignaled u (List.mem_append_left _ hu)
    obtain ⟨hsignal, hbroadcast⟩ :=
      hunsignaled t (List.mem_append_right _ (List.mem_singleton_self t))
    obtain ⟨cv₂, hc₂, heffect⟩ := hstep.conditionVariable hc₁
    have hstep := releases_of_effect (m := m) heffect hsignal hbroadcast
    refine ⟨cv₂, hc₂, ?_⟩
    rw [completedWaits_concat, List.length_append]
    omega
  obtain ⟨cv', -, hle⟩ := hinvariant
  omega

/-! ### The mutex -/

/-- A thread which has executed nothing has got no mutex. -/
theorem isLockedBy_of_run (hrun : run s tr = some s') (hm : s.objectState m = some (.mutex mu))
    (hnot : ∀ t ∈ tr, t.executor ≠ tid) :
    ∃ mu', s'.objectState m = some (.mutex mu') ∧
      (mu'.isLockedBy tid = true → mu.isLockedBy tid = true) := by
  refine run_induction (P := fun tr s' => (∀ t ∈ tr, t.executor ≠ tid) →
    ∃ mu', s'.objectState m = some (.mutex mu') ∧
      (mu'.isLockedBy tid = true → mu.isLockedBy tid = true)) (fun _ => ⟨mu, hm, id⟩) ?_ hrun hnot
  intro tr s₁ t s₂ _ ih hstep hnot
  obtain ⟨mu₁, hm₁, hlocked⟩ := ih fun u hu => hnot u (List.mem_append_left _ hu)
  have hexec := hnot t (List.mem_append_right _ (List.mem_singleton_self t))
  obtain ⟨mu₂, hm₂, heffect⟩ := hstep.mutex hm₁
  refine ⟨mu₂, hm₂, fun hheld => ?_⟩
  cases heffect with
  | unrelated => exact hlocked hheld
  | init | release => simp at hheld
  | acquire =>
    rw [Mutex.acquiredBy_isLockedBy] at hheld
    exact absurd hheld hexec

/-- The pending enqueue is enabled while the mutex is locked by the thread. -/
theorem isLockedBy_of_protocol (hrun : run s tr = some s')
    (hm : s.objectState m = some (.mutex mu))
    (hprotocol : resume c m tid <+: tr.filter fun t => t.executor = tid) :
    mu.isLockedBy tid = true := by
  obtain ⟨rest, hrest⟩ := hprotocol
  obtain ⟨pre, post, rfl, hpre, -, -⟩ := List.filter_eq_cons_iff.mp hrest.symm
  obtain ⟨s₁, hrun₁, hrun⟩ := run_append_eq_some.mp hrun
  obtain ⟨s₂, hstep, -⟩ := run_cons_eq_some.mp hrun
  obtain ⟨mu₁, hm₁, hlocked⟩ := isLockedBy_of_run hrun₁ hm fun t ht => by simpa using hpre t ht
  cases hstep with
  | conditionVariableEnqueueThread _ _ hm₂ hheld =>
    cases hm₁.symm.trans hm₂
    exact hlocked hheld

/-- A thread which the policy lets leave resumes, if it is active and owns the mutex. -/
theorem exists_run_resume (ha : s.Active tid)
    (hc : s.objectState c = some (.conditionVariable cv))
    (hm : s.objectState m = some (.mutex mu)) (hheld : mu.isLockedBy tid = true)
    (hexit : cv.policy.threadCanExit tid = true) :
    ∃ s', run s (resume c m tid) = some s' := by
  -- it falls asleep, which releases the mutex
  let cv₁ := cv.enqueueThread tid mu.location
  let s₁ := (s.setObjectState c (.conditionVariable cv₁)).setObjectState m (.mutex mu.released)
  have henqueue : Step s ⟨tid, .conditionVariableEnqueueThread c m⟩ s₁ :=
    .conditionVariableEnqueueThread ha hc hm hheld
  have hm' : (s.setObjectState c (.conditionVariable cv₁)).objectState m = some (.mutex mu) :=
    State.setObjectState_of_type_ne hc hm (by simp)
  have ha₁ : s₁.Active tid := State.HasThread.setObjectState
    (State.HasThread.setObjectState ha hc (by simp)) hm' (by simp)
  have hc₁ : s₁.objectState c = some (.conditionVariable cv₁) :=
    State.setObjectState_of_type_ne hm' State.setObjectState_self (by simp)
  have hm₁ : s₁.objectState m = some (.mutex mu.released) := State.setObjectState_self
  -- it wakes up, since the policy lets it leave as before
  have hexit₁ : cv₁.policy.threadCanExit tid = true := by
    rw [ConditionVariable.enqueueThread_defaultPolicy]
    exact hexit
  have hsome : (cv₁.wait tid mu.location).isSome = true :=
    ConditionVariable.wait_isSome_iff.mpr hexit₁
  obtain ⟨cv₂, hwait₂⟩ := Option.isSome_iff_exists.mp hsome
  have hcanExit : cv₁.waiterCanExit tid = true := by
    rw [ConditionVariable.waiterCanExit, hexit₁, Bool.or_true]
  have hwait : Step s₁ ⟨tid, .conditionVariableWait c m⟩ _ :=
    .conditionVariableWait ha₁ hc₁ hm₁ ⟨rfl, rfl⟩ hcanExit rfl (by simp) hwait₂
  exact ⟨_, run_cons_eq_some.mpr ⟨s₁, henqueue, run_cons_eq_some.mpr ⟨_, hwait, rfl⟩⟩⟩

theorem resumes_resume (tid : RunnerId) : Resumes c m [tid] (resume c m tid) := by
  refine ⟨fun p hp => ?_, ?_, fun t ht => ?_⟩
  · obtain rfl := List.mem_singleton.mp hp
    simp [resume]
  · simp [resume, completedWaits]
  · rcases List.mem_cons.mp ht with rfl | ht
    · exact ⟨by simp, by simp⟩
    · obtain rfl := List.mem_singleton.mp ht
      exact ⟨by simp, by simp⟩

/-! ### The restored threads -/

/-- **Restoring signaled threads.** From a restored state in which the threads recorded as
signaled are active, all of them can resume, in every order, exactly when there is none, or a
single one which is recorded as the owner of the mutex. -/
theorem signaled_threads_resume_iff {state : ConditionVariableState} {mutex : Addr} {count : ℤ}
    {threadStates : List (RunnerId × ConditionVariableStatus)}
    (hc : s.objectState c = some (.conditionVariable
      (.construct state tid mutex count threadStates)))
    (hm : s.objectState m = some (.mutex mu))
    (hactive : ∀ t ∈ signaledThreads threadStates, s.Active t) :
    (∀ order : List RunnerId, order.Perm (signaledThreads threadStates) →
      ∃ tr s', run s tr = some s' ∧ Resumes c m order tr) ↔
    ∀ t ∈ signaledThreads threadStates,
      signaledThreads threadStates = [t] ∧ mu.isLockedBy t = true := by
  constructor
  · intro h t ht
    obtain ⟨tr, s', hrun, hresumes⟩ := h _ (List.Perm.refl _)
    refine ⟨?_, isLockedBy_of_protocol hrun hm (hresumes.protocol t ht)⟩
    -- there is one wake group
    have hle := length_completedWaits_le (m := m) hrun hc hresumes.unsignaled
    have hne : (signaledThreads threadStates).isEmpty = false :=
      List.isEmpty_eq_false_iff.mpr (List.ne_nil_of_mem ht)
    rw [ConditionVariable.construct_defaultPolicy, hne] at hle
    have hone : (signaledThreads threadStates).length = 1 :=
      le_antisymm (hresumes.order.length_le.trans hle) (List.length_pos_of_mem ht)
    obtain ⟨u, hu⟩ := List.length_eq_one_iff.mp hone
    rw [hu, List.mem_singleton] at ht
    rw [hu, ht]
  · intro h order hperm
    rcases hsig : signaledThreads threadStates with _ | ⟨t, rest⟩
    · rw [hsig] at hperm
      obtain rfl := hperm.eq_nil
      exact ⟨[], s, rfl, fun p hp => absurd hp List.not_mem_nil, List.nil_sublist _,
        fun t ht => absurd ht List.not_mem_nil⟩
    · have ht : t ∈ signaledThreads threadStates := hsig ▸ List.mem_cons_self
      obtain ⟨hsingle, hheld⟩ := h t ht
      rw [hsingle] at hperm
      obtain rfl := List.perm_singleton.mp hperm
      have hexit : (ConditionVariable.construct state tid mutex count
          threadStates).policy.threadCanExit t = true := by
        rw [ConditionVariable.construct_defaultPolicy, hsingle]
        simp [ConditionVariableDefaultPolicy.threadCanExit]
      obtain ⟨s', hrun⟩ := exists_run_resume (hactive t ht) hc hm hheld hexit
      exact ⟨_, s', hrun, resumes_resume t⟩

/-- A restored state: three running threads, a mutex at address 64 which is recorded as locked by
thread `1`, and a condition variable rebuilt from the given list. -/
private def restored (threadStates : List (RunnerId × ConditionVariableStatus)) : State :=
  .ofRunnersAndObjects [⟨.running⟩, ⟨.running⟩, ⟨.running⟩]
    [.mutex ⟨.locked, 64, 1⟩,
      .conditionVariable (.construct .signaled ridInvalid 64 0 threadStates)]

/-- Two threads were signaled before the checkpoint: not both can resume. -/
theorem signaled_threads_lost :
    ¬ ∀ order : List RunnerId,
      order.Perm (signaledThreads [(1, .signaled), (2, .signaled)]) →
        ∃ tr s', run (restored [(1, .signaled), (2, .signaled)]) tr = some s' ∧
          Resumes 4 3 order tr := by
  intro h
  obtain ⟨tr, s', hrun, hresumes⟩ := h [1, 2] (List.Perm.refl _)
  have hle := length_completedWaits_le (m := 3) hrun rfl hresumes.unsignaled
  exact absurd (hresumes.order.length_le.trans hle) (by decide)

/-- One thread was signaled before the checkpoint, next to one which waits: it can resume. -/
theorem signaled_threads_resume_one :
    ∃ tr s', run (restored [(1, .signaled), (2, .waiting)]) tr = some s' ∧
      Resumes 4 3 [1] tr := by
  have hc : (restored [(1, .signaled), (2, .waiting)]).objectState 4 =
    some (.conditionVariable (.construct .signaled ridInvalid 64 0
      [(1, .signaled), (2, .waiting)])) := rfl
  have hm : (restored [(1, .signaled), (2, .waiting)]).objectState 3 =
    some (.mutex ⟨.locked, 64, 1⟩) := rfl
  have hactive : ∀ t ∈ signaledThreads [(1, .signaled), (2, .waiting)],
      (restored [(1, .signaled), (2, .waiting)]).Active t := by
    intro t ht
    obtain rfl : t = 1 := by simpa [signaledThreads] using ht
    exact ⟨1, rfl, rfl⟩
  refine (signaled_threads_resume_iff hc hm hactive).mpr (fun t ht => ?_) [1] (List.Perm.refl _)
  obtain rfl : t = 1 := by simpa [signaledThreads] using ht
  exact ⟨rfl, rfl⟩

end McMini
