import McMini.Model.Transition

/-!
# What a transition does

`fire` runs the source's code. `Step s t s'` says in one clause for each class of
transition when the transition is enabled in `s` and which state it leads to, and
`fire_eq_some_iff_step` connects the two. Everything proved about runs of the model is
proved by cases on `Step`, and nothing beyond this file unfolds `modify`.
-/

namespace McMini

/-- The mutex after its holder has released it, or after it was initialized. -/
def Mutex.released (m : Mutex) : Mutex := { currentState := .unlocked, location := m.location }

/-- The mutex after the runner `p` has acquired it. -/
def Mutex.acquiredBy (m : Mutex) (p : RunnerId) : Mutex := ⟨.locked, m.location, p⟩

@[simp]
theorem Mutex.released_location (m : Mutex) : m.released.location = m.location := rfl

@[simp]
theorem Mutex.acquiredBy_location (m : Mutex) (p : RunnerId) :
    (m.acquiredBy p).location = m.location := rfl

@[simp]
theorem Mutex.released_isUnlocked (m : Mutex) : m.released.isUnlocked = true := rfl

@[simp]
theorem Mutex.released_isLockedBy (m : Mutex) (p : RunnerId) :
    m.released.isLockedBy p = false := rfl

@[simp]
theorem Mutex.acquiredBy_isLockedBy (m : Mutex) (p q : RunnerId) :
    (m.acquiredBy p).isLockedBy q = true ↔ p = q := by
  simp [acquiredBy, isLockedBy]

/-- The state in which the thread of the runner `p` is `t`. -/
def State.setThread (s : State) (p : RunnerId) (t : Thread) : State :=
  match s.objidForRunner p with
  | some i => s.setObjectState i (.thread t)
  | none => s

/-- The condition variable can be used: it is initialized and not destroyed. -/
def ConditionVariable.Usable (cv : ConditionVariable) : Prop :=
  cv.isUninitialized = false ∧ cv.isDestroyed = false

/-- A signal, a broadcast and a wake-up leave the condition variable usable. -/
theorem ConditionVariable.usable_of_currentState {cv : ConditionVariable}
    {p : ConditionVariableArbitraryPolicy} (h : cv.currentState = stateForQueue p) :
    cv.Usable := by
  unfold Usable isUninitialized isDestroyed
  rw [h, stateForQueue]
  split_ifs <;> exact ⟨rfl, rfl⟩

/-- The transition `t` is enabled in `s` and leads to the last argument. -/
inductive Step (s : State) : Transition → State → Prop
  | mutexInit {p i m} : s.Active p → s.objectState i = some (.mutex m) →
      Step s ⟨p, .mutexInit i⟩ (s.setObjectState i (.mutex m.released))
  | mutexLock {p i m} : s.Active p → s.objectState i = some (.mutex m) → m.isLocked = false →
      Step s ⟨p, .mutexLock i⟩ (s.setObjectState i (.mutex (m.acquiredBy p)))
  | mutexUnlock {p i m} : s.Active p → s.objectState i = some (.mutex m) →
      m.isLockedBy p = true →
      Step s ⟨p, .mutexUnlock i⟩ (s.setObjectState i (.mutex m.released))
  | conditionVariableInit {p c cv} : s.Active p →
      s.objectState c = some (.conditionVariable cv) →
      Step s ⟨p, .conditionVariableInit c⟩
        (s.setObjectState c (.conditionVariable { currentState := .initialized }))
  | conditionVariableEnqueueThread {p c i cv m} : s.Active p →
      s.objectState c = some (.conditionVariable cv) → s.objectState i = some (.mutex m) →
      m.isLockedBy p = true →
      Step s ⟨p, .conditionVariableEnqueueThread c i⟩
        ((s.setObjectState c (.conditionVariable (cv.enqueueThread p m.location))).setObjectState i
          (.mutex m.released))
  | conditionVariableWait {p c i cv newCv m} : s.Active p →
      s.objectState c = some (.conditionVariable cv) → s.objectState i = some (.mutex m) →
      cv.Usable → cv.waiterCanExit p = true → m.location = cv.associatedMutex →
      m.isUnlocked = true → cv.wait p m.location = some newCv →
      Step s ⟨p, .conditionVariableWait c i⟩
        ((s.setObjectState i (.mutex (m.acquiredBy p))).setObjectState c
          (.conditionVariable newCv))
  | conditionVariableSignalLost {p c cv} : s.Active p →
      s.objectState c = some (.conditionVariable cv) → cv.Usable → cv.hasWaiters = false →
      Step s ⟨p, .conditionVariableSignal c⟩ s
  | conditionVariableSignal {p c cv} : s.Active p →
      s.objectState c = some (.conditionVariable cv) → cv.Usable → cv.hasWaiters = true →
      Step s ⟨p, .conditionVariableSignal c⟩ (s.setObjectState c (.conditionVariable cv.signal))
  | conditionVariableBroadcastLost {p c cv} : s.Active p →
      s.objectState c = some (.conditionVariable cv) → cv.Usable → cv.hasWaiters = false →
      Step s ⟨p, .conditionVariableBroadcast c⟩ s
  | conditionVariableBroadcast {p c cv} : s.Active p →
      s.objectState c = some (.conditionVariable cv) → cv.Usable → cv.hasWaiters = true →
      Step s ⟨p, .conditionVariableBroadcast c⟩
        (s.setObjectState c (.conditionVariable (cv.broadcast p)))
  | conditionVariableDestroy {p c cv} : s.Active p →
      s.objectState c = some (.conditionVariable cv) → cv.Usable → cv.hasWaiters = false →
      Step s ⟨p, .conditionVariableDestroy c⟩
        (s.setObjectState c
          (.conditionVariable { currentState := .destroyed, runningThread := p }))
  | semInit {p i n sem} : s.Active p → s.objectState i = some (.semaphore sem) →
      Step s ⟨p, .semInit i n⟩ (s.setObjectState i (.semaphore (.ofCount n)))
  | semPost {p i sem} : s.Active p → s.objectState i = some (.semaphore sem) →
      Step s ⟨p, .semPost i⟩ (s.setObjectState i (.semaphore (.ofCount (sem.count + 1))))
  | semWait {p i sem} : s.Active p → s.objectState i = some (.semaphore sem) →
      sem.willBlock = false →
      Step s ⟨p, .semWait i⟩ (s.setObjectState i (.semaphore (.ofCount (sem.count - 1))))
  | threadCreate {p target t} : s.Active p → s.HasThread target t →
      Step s ⟨p, .threadCreate target⟩ (s.setThread target ⟨.running⟩)
  | threadStart {p} : s.Active p → Step s ⟨p, .threadStart⟩ s
  | threadJoin {p target} : s.Active p → s.HasThread target ⟨.exited⟩ →
      Step s ⟨p, .threadJoin target⟩ s
  | threadExit {p} : s.Active p → p ≠ ridMainThread →
      Step s ⟨p, .threadExit⟩ (s.setThread p ⟨.exited⟩)
  | processExit {p exitCode} : s.Active p →
      Step s ⟨p, .processExit exitCode⟩ (s.setThread p ⟨.exited⟩)
  | processAbort {p} : s.Active p → Step s ⟨p, .processAbort⟩ s

/-! ### What `modify` yields, at the level of states -/

namespace DiffState

/-- The operation finds that the transition exists, and leaves the state `s'`. -/
def Yields (r : Except Failure (Status × DiffState)) (s' : State) : Prop :=
  ∃ d, r = .ok (.exists', d) ∧ d.toState = s'

/-- The state of `i` can be replaced by `o`: the object is there and has the same type. -/
def CanReplace (s : State) (i : ObjId) (o : VisibleObjectState) : Prop :=
  ∃ old, s.objectState i = some old ∧ old.objectType = o.objectType

variable {d : DiffState} {i : ObjId} {o : VisibleObjectState} {s s' : State} {p : RunnerId}
  {t : Thread} {f : DiffState → Except Failure (Status × DiffState)}

@[simp]
theorem yields_exists : Yields (pure (.exists', d)) s' ↔ d.toState = s' := by
  simp [Yields, pure, Except.pure]

@[simp]
theorem not_yields_disabled : ¬ Yields (pure (.disabled, d)) s' := by
  simp [Yields, pure, Except.pure]

@[simp]
theorem not_yields_undefined : ¬ Yields (pure (.undefined, d)) s' := by
  simp [Yields, pure, Except.pure]

@[simp]
theorem not_yields_throw {e : Failure} : ¬ Yields (throw e) s' := by
  simp [Yields, throw, throwThe, MonadExceptOf.throw]

/-- A sequence yields what its second part does. -/
theorem yields_bind {α : Type} {x : Except Failure α}
    {f : α → Except Failure (Status × DiffState)} :
    Yields (x >>= f) s' ↔ ∃ a, x = .ok a ∧ Yields (f a) s' := by
  simp only [Yields, bind_eq_ok]
  exact ⟨fun ⟨d, ⟨a, ha, hd⟩, h⟩ => ⟨a, ha, d, hd, h⟩,
    fun ⟨a, ha, d, hd, h⟩ => ⟨d, ⟨a, ha, hd⟩, h⟩⟩

/-- A guard which gives up yields something only when it does not fire. -/
theorem yields_ite {c : Prop} [Decidable c] {x y : Except Failure (Status × DiffState)}
    (hx : ¬ Yields x s') : Yields (if c then x else y) s' ↔ ¬ c ∧ Yields y s' := by
  by_cases hc : c <;> simp [hc, hx]

theorem yields_replaceStateForObj :
    Yields (d.replaceStateForObj i o >>= f) s' ↔
      CanReplace d.toState i o ∧
        Yields (f (d.insertState i o)) s' := by
  simp [yields_bind, replaceStateForObj_eq_ok, CanReplace]

theorem yields_replaceStateForRunner :
    Yields (d.replaceStateForRunner p t >>= fun d => pure (.exists', d)) s' ↔
      (∃ t, d.toState.HasThread p t) ∧ d.toState.setThread p t = s' := by
  unfold replaceStateForRunner State.setThread State.HasThread
  cases d.toState.objidForRunner p with
  | none => simp [Yields, bind, Except.bind]
  | some i =>
    simp only [yields_replaceStateForObj, yields_exists, toState_insertState, CanReplace,
      Option.some.injEq, exists_eq_left', VisibleObjectState.objectType_thread,
      VisibleObjectState.objectType_eq_thread]
    exact and_congr_left fun _ => ⟨fun ⟨old, hold, t, ht⟩ => ⟨t, ht ▸ hold⟩,
      fun ⟨t, ht⟩ => ⟨_, ht, t, rfl⟩⟩

/-! ### Operations on a state without differences -/

variable {m : Mutex}

theorem yields_mutexAt {f : Mutex → Except Failure (Status × DiffState)} :
    Yields ((ofState s).toState.mutexAt i >>= f) s' ↔
      ∃ m, s.objectState i = some (.mutex m) ∧ Yields (f m) s' := by
  simp only [yields_bind, State.mutexAt_eq_ok, toState_ofState]

theorem yields_semaphoreAt {f : Semaphore → Except Failure (Status × DiffState)} :
    Yields ((ofState s).toState.semaphoreAt i >>= f) s' ↔
      ∃ sem, s.objectState i = some (.semaphore sem) ∧ Yields (f sem) s' := by
  simp only [yields_bind, State.semaphoreAt_eq_ok, toState_ofState]

theorem yields_conditionVariableAt
    {f : ConditionVariable → Except Failure (Status × DiffState)} :
    Yields ((ofState s).toState.conditionVariableAt i >>= f) s' ↔
      ∃ cv, s.objectState i = some (.conditionVariable cv) ∧ Yields (f cv) s' := by
  simp only [yields_bind, State.conditionVariableAt_eq_ok, toState_ofState]

theorem yields_getStateOfRunner {f : Thread → Except Failure (Status × DiffState)} :
    Yields ((ofState s).toState.getStateOfRunner p >>= f) s' ↔
      ∃ t, s.HasThread p t ∧ Yields (f t) s' := by
  simp only [yields_bind, State.getStateOfRunner_eq_ok, toState_ofState]

/-- Replacing an object which is there with the right type, as the last action. -/
theorem yields_replace {old : VisibleObjectState} (hi : s.objectState i = some old)
    (htype : old.objectType = o.objectType) :
    Yields ((ofState s).replaceStateForObj i o >>= fun d => pure (.exists', d)) s' ↔
      s.setObjectState i o = s' := by
  rw [yields_replaceStateForObj, yields_exists, toState_insertState, toState_ofState]
  exact and_iff_right ⟨old, hi, htype⟩

/-- Replacing two objects of different types, one after the other. -/
theorem yields_replace₂ {j : ObjId} {old₁ old₂ o' : VisibleObjectState}
    (hi : s.objectState i = some old₁) (hj : s.objectState j = some old₂)
    (hne : old₁.objectType ≠ old₂.objectType) (htype : old₁.objectType = o.objectType)
    (htype' : old₂.objectType = o'.objectType) :
    Yields ((ofState s).replaceStateForObj i o >>= fun d =>
        d.replaceStateForObj j o' >>= fun d => pure (.exists', d)) s' ↔
      (s.setObjectState i o).setObjectState j o' = s' := by
  have hji : j ≠ i := by
    rintro rfl
    exact hne (by rw [Option.some.inj (hi.symm.trans hj)])
  simp only [yields_replaceStateForObj, yields_exists, toState_insertState, toState_ofState]
  have hi' : CanReplace s i o := ⟨old₁, hi, htype⟩
  have hj' : CanReplace (s.setObjectState i o) j o' :=
    ⟨old₂, (State.setObjectState_of_ne hji).trans hj, htype'⟩
  rw [and_iff_right hi', and_iff_right hj']

end DiffState

open DiffState

variable {s s' : State} {p : RunnerId} {i j c : ObjId}

/-! ### The spec of each `modify` -/

private theorem yields_mutexInit :
    Yields (MutexInit.modify i (ofState s)) s' ↔
      ∃ m, s.objectState i = some (.mutex m) ∧ s.setObjectState i (.mutex m.released) = s' := by
  rw [MutexInit.modify, yields_mutexAt]
  exact exists_congr fun m => and_congr_right fun hm => yields_replace hm rfl

private theorem yields_mutexLock :
    Yields (MutexLock.modify p i (ofState s)) s' ↔
      ∃ m, s.objectState i = some (.mutex m) ∧ m.isLocked = false ∧
        s.setObjectState i (.mutex (m.acquiredBy p)) = s' := by
  rw [MutexLock.modify, yields_mutexAt]
  refine exists_congr fun m => and_congr_right fun hm => ?_
  rw [yields_ite not_yields_disabled, Bool.not_eq_true]
  exact and_congr_right fun _ => yields_replace hm rfl

private theorem yields_mutexUnlock :
    Yields (MutexUnlock.modify p i (ofState s)) s' ↔
      ∃ m, s.objectState i = some (.mutex m) ∧ m.isLockedBy p = true ∧
        s.setObjectState i (.mutex m.released) = s' := by
  rw [MutexUnlock.modify, yields_mutexAt]
  refine exists_congr fun m => and_congr_right fun hm => ?_
  rw [yields_ite not_yields_disabled, Bool.not_eq_true, Bool.not_eq_false']
  exact and_congr_right fun _ => yields_replace hm rfl

private theorem yields_conditionVariableInit :
    Yields (ConditionVariableInit.modify c (ofState s)) s' ↔
      ∃ cv, s.objectState c = some (.conditionVariable cv) ∧
        s.setObjectState c (.conditionVariable { currentState := .initialized }) = s' := by
  rw [ConditionVariableInit.modify, yields_replaceStateForObj, yields_exists, toState_insertState,
    toState_ofState]
  simp [CanReplace, VisibleObjectState.objectType_eq_conditionVariable, and_comm]

private theorem yields_conditionVariableEnqueueThread :
    Yields (ConditionVariableEnqueueThread.modify p c i (ofState s)) s' ↔
      ∃ cv, s.objectState c = some (.conditionVariable cv) ∧
        ∃ m, s.objectState i = some (.mutex m) ∧ m.isLockedBy p = true ∧
          (s.setObjectState c (.conditionVariable (cv.enqueueThread p m.location))).setObjectState i
            (.mutex m.released) = s' := by
  rw [ConditionVariableEnqueueThread.modify, yields_conditionVariableAt]
  refine exists_congr fun cv => and_congr_right fun hcv => ?_
  rw [yields_mutexAt]
  refine exists_congr fun m => and_congr_right fun hm => ?_
  rw [yields_ite not_yields_disabled, yields_ite not_yields_disabled,
    Bool.not_eq_true, Bool.not_eq_true, Bool.not_eq_false']
  refine (and_congr_right fun _ => and_congr_right fun _ =>
    yields_replace₂ hcv hm (by simp) (by rfl) (by rfl)).trans ?_
  -- a mutex its holder has locked is not unlocked, so the first guard is implied
  exact and_iff_right_of_imp fun h => Mutex.isUnlocked_eq_false_of_isLockedBy h.1

private theorem yields_conditionVariableWait :
    Yields (ConditionVariableWait.modify p c i (ofState s)) s' ↔
      ∃ cv, s.objectState c = some (.conditionVariable cv) ∧
        ∃ m, s.objectState i = some (.mutex m) ∧ cv.Usable ∧ cv.waiterCanExit p = true ∧
          m.location = cv.associatedMutex ∧ m.isUnlocked = true ∧
          ∃ newCv, cv.wait p m.location = some newCv ∧
            (s.setObjectState i (.mutex (m.acquiredBy p))).setObjectState c
              (.conditionVariable newCv) = s' := by
  rw [ConditionVariableWait.modify, yields_conditionVariableAt]
  refine exists_congr fun cv => and_congr_right fun hcv => ?_
  rw [yields_mutexAt]
  refine exists_congr fun m => and_congr_right fun hm => ?_
  rw [yields_ite not_yields_undefined, yields_ite not_yields_disabled,
    yields_ite not_yields_disabled]
  have guards : (¬ (cv.isUninitialized || cv.isDestroyed) = true ∧ ¬ m.isLockedBy p = true ∧
      ¬ (!(cv.waiterCanExit p && m.location == cv.associatedMutex && m.isUnlocked)) = true) ↔
      cv.Usable ∧ cv.waiterCanExit p = true ∧ m.location = cv.associatedMutex ∧
        m.isUnlocked = true := by
    have free : m.isUnlocked = true → m.isLockedBy p = false := by
      intro h
      by_contra hl
      rw [Mutex.isUnlocked_eq_false_of_isLockedBy (Bool.not_eq_false _ ▸ hl)] at h
      exact Bool.false_ne_true h
    simp only [ConditionVariable.Usable, Bool.not_eq_true, Bool.or_eq_false_iff,
      Bool.not_eq_false', Bool.and_eq_true, beq_iff_eq]
    tauto
  cases hwait : cv.wait p m.location with
  | none => simp [yields_bind]
  | some newCv =>
    have effect : Yields ((ofState s).replaceStateForObj i (.mutex ⟨.locked, m.location, p⟩) >>=
          fun d => d.replaceStateForObj c (.conditionVariable newCv) >>= fun d =>
            pure (.exists', d)) s' ↔
        ∃ newCv', some newCv = some newCv' ∧
          (s.setObjectState i (.mutex (m.acquiredBy p))).setObjectState c
            (.conditionVariable newCv') = s' := by
      refine (yields_replace₂ hm hcv (by simp) (by rfl) (by rfl)).trans ?_
      simp [Mutex.acquiredBy]
    rw [effect]
    constructor
    · rintro ⟨h₁, h₂, h₃, h⟩
      obtain ⟨hu, hexit, hloc, hfree⟩ := guards.mp ⟨h₁, h₂, h₃⟩
      exact ⟨hu, hexit, hloc, hfree, h⟩
    · rintro ⟨hu, hexit, hloc, hfree, h⟩
      obtain ⟨h₁, h₂, h₃⟩ := guards.mpr ⟨hu, hexit, hloc, hfree⟩
      exact ⟨h₁, h₂, h₃, h⟩

/-- The two guards which the operations on a usable condition variable share. -/
private theorem yields_usable {cv : ConditionVariable} {d : DiffState}
    {x : Except Failure (Status × DiffState)} :
    Yields (if cv.isUninitialized then pure (.undefined, d) else
        if cv.isDestroyed then pure (.undefined, d) else x) s' ↔ cv.Usable ∧ Yields x s' := by
  rw [yields_ite not_yields_undefined, yields_ite not_yields_undefined, ← and_assoc]
  simp only [ConditionVariable.Usable, Bool.not_eq_true]

private theorem yields_conditionVariableSignal :
    Yields (ConditionVariableSignal.modify c (ofState s)) s' ↔
      ∃ cv, s.objectState c = some (.conditionVariable cv) ∧ cv.Usable ∧
        (cv.hasWaiters = false ∧ s = s' ∨ cv.hasWaiters = true ∧
          s.setObjectState c (.conditionVariable cv.signal) = s') := by
  rw [ConditionVariableSignal.modify, yields_conditionVariableAt]
  refine exists_congr fun cv => and_congr_right fun hcv => yields_usable.trans ?_
  refine and_congr_right fun _ => ?_
  cases cv.hasWaiters with
  | false => simp
  | true => simpa using yields_replace hcv (by rfl)

private theorem yields_conditionVariableBroadcast :
    Yields (ConditionVariableBroadcast.modify p c (ofState s)) s' ↔
      ∃ cv, s.objectState c = some (.conditionVariable cv) ∧ cv.Usable ∧
        (cv.hasWaiters = false ∧ s = s' ∨ cv.hasWaiters = true ∧
          s.setObjectState c (.conditionVariable (cv.broadcast p)) = s') := by
  rw [ConditionVariableBroadcast.modify, yields_conditionVariableAt]
  refine exists_congr fun cv => and_congr_right fun hcv => yields_usable.trans ?_
  refine and_congr_right fun _ => ?_
  cases cv.hasWaiters with
  | false => simp
  | true => simpa using yields_replace hcv (by rfl)

private theorem yields_conditionVariableDestroy :
    Yields (ConditionVariableDestroy.modify p c (ofState s)) s' ↔
      ∃ cv, s.objectState c = some (.conditionVariable cv) ∧ cv.Usable ∧
        cv.hasWaiters = false ∧ s.setObjectState c
          (.conditionVariable { currentState := .destroyed, runningThread := p }) = s' := by
  rw [ConditionVariableDestroy.modify, yields_conditionVariableAt]
  refine exists_congr fun cv => and_congr_right fun hcv => yields_usable.trans ?_
  rw [yields_ite not_yields_undefined, Bool.not_eq_true]
  exact and_congr_right fun _ => and_congr_right fun _ => yields_replace hcv rfl

private theorem yields_semInit {n : BitVec 32} :
    Yields (SemInit.modify i n (ofState s)) s' ↔
      ∃ sem, s.objectState i = some (.semaphore sem) ∧
        s.setObjectState i (.semaphore (.ofCount n)) = s' := by
  rw [SemInit.modify, yields_replaceStateForObj, yields_exists, toState_insertState, toState_ofState]
  simp [CanReplace, VisibleObjectState.objectType_eq_semaphore, and_comm]

private theorem yields_semPost :
    Yields (SemPost.modify i (ofState s)) s' ↔
      ∃ sem, s.objectState i = some (.semaphore sem) ∧
        s.setObjectState i (.semaphore (.ofCount (sem.count + 1))) = s' := by
  rw [SemPost.modify, yields_semaphoreAt]
  exact exists_congr fun sem => and_congr_right fun hsem => yields_replace hsem rfl

private theorem yields_semWait :
    Yields (SemWait.modify i (ofState s)) s' ↔
      ∃ sem, s.objectState i = some (.semaphore sem) ∧ sem.willBlock = false ∧
        s.setObjectState i (.semaphore (.ofCount (sem.count - 1))) = s' := by
  rw [SemWait.modify, yields_semaphoreAt]
  refine exists_congr fun sem => and_congr_right fun hsem => ?_
  rw [yields_ite not_yields_disabled, Bool.not_eq_true]
  exact and_congr_right fun _ => yields_replace hsem rfl

private theorem yields_threadJoin {target : RunnerId} :
    Yields (ThreadJoin.modify target (ofState s)) s' ↔
      s.HasThread target ⟨.exited⟩ ∧ s = s' := by
  rw [ThreadJoin.modify, yields_getStateOfRunner]
  constructor
  · rintro ⟨⟨c⟩, ht, h⟩
    cases hc : c with
    | exited => exact ⟨hc ▸ ht, by simpa [hc, Thread.hasExited] using h⟩
    | _ => simp [hc, Thread.hasExited] at h
  · rintro ⟨ht, h⟩
    exact ⟨_, ht, by simpa [Thread.hasExited] using h⟩

private theorem yields_threadExit (ha : s.Active p) :
    Yields (ThreadExit.modify p (ofState s)) s' ↔
      p ≠ ridMainThread ∧ s.setThread p ⟨.exited⟩ = s' := by
  rw [ThreadExit.modify, yields_getStateOfRunner]
  have running : ∀ t, s.HasThread p t → t.isRunning = true := fun t ht => by
    rw [ha.unique ht |>.symm]
    rfl
  constructor
  · rintro ⟨t, ht, h⟩
    rw [yields_ite not_yields_disabled, running t ht, yields_replaceStateForRunner] at h
    obtain ⟨hmain, -, rfl⟩ := h
    exact ⟨by simpa using hmain, by rw [toState_ofState]⟩
  · rintro ⟨hmain, h⟩
    refine ⟨_, ha, ?_⟩
    rw [yields_ite not_yields_disabled, yields_replaceStateForRunner, toState_ofState]
    exact ⟨by simpa [Thread.isRunning] using hmain, ⟨_, ha⟩, h⟩

/-! ### Firing is a step -/

private theorem fire_iff_yields {op : Operation} :
    fire ⟨p, op⟩ s = some s' ↔
      s.Active p ∧ Yields (Transition.modify ⟨p, op⟩ (ofState s)) s' :=
  fire_eq_some_iff

private theorem step_of_fire {op : Operation} (h : fire ⟨p, op⟩ s = some s') :
    Step s ⟨p, op⟩ s' := by
  obtain ⟨ha, h⟩ := fire_iff_yields.mp h
  cases op with
  | mutexInit i =>
    obtain ⟨m, hm, rfl⟩ := yields_mutexInit.mp h
    exact .mutexInit ha hm
  | mutexLock i =>
    obtain ⟨m, hm, hfree, rfl⟩ := yields_mutexLock.mp h
    exact .mutexLock ha hm hfree
  | mutexUnlock i =>
    obtain ⟨m, hm, hheld, rfl⟩ := yields_mutexUnlock.mp h
    exact .mutexUnlock ha hm hheld
  | conditionVariableInit c =>
    obtain ⟨cv, hcv, rfl⟩ := yields_conditionVariableInit.mp h
    exact .conditionVariableInit ha hcv
  | conditionVariableEnqueueThread c i =>
    obtain ⟨cv, hcv, m, hm, hheld, rfl⟩ := yields_conditionVariableEnqueueThread.mp h
    exact .conditionVariableEnqueueThread ha hcv hm hheld
  | conditionVariableWait c i =>
    obtain ⟨cv, hcv, m, hm, hu, hexit, hloc, hfree, newCv, hnew, rfl⟩ :=
      yields_conditionVariableWait.mp h
    exact .conditionVariableWait ha hcv hm hu hexit hloc hfree hnew
  | conditionVariableSignal c =>
    obtain ⟨cv, hcv, hu, ⟨hw, rfl⟩ | ⟨hw, rfl⟩⟩ := yields_conditionVariableSignal.mp h
    · exact .conditionVariableSignalLost ha hcv hu hw
    · exact .conditionVariableSignal ha hcv hu hw
  | conditionVariableBroadcast c =>
    obtain ⟨cv, hcv, hu, ⟨hw, rfl⟩ | ⟨hw, rfl⟩⟩ := yields_conditionVariableBroadcast.mp h
    · exact .conditionVariableBroadcastLost ha hcv hu hw
    · exact .conditionVariableBroadcast ha hcv hu hw
  | conditionVariableDestroy c =>
    obtain ⟨cv, hcv, hu, hw, rfl⟩ := yields_conditionVariableDestroy.mp h
    exact .conditionVariableDestroy ha hcv hu hw
  | semInit i n =>
    obtain ⟨sem, hsem, rfl⟩ := yields_semInit.mp h
    exact .semInit ha hsem
  | semPost i =>
    obtain ⟨sem, hsem, rfl⟩ := yields_semPost.mp h
    exact .semPost ha hsem
  | semWait i =>
    obtain ⟨sem, hsem, hblock, rfl⟩ := yields_semWait.mp h
    exact .semWait ha hsem hblock
  | threadCreate target =>
    obtain ⟨⟨t, ht⟩, rfl⟩ := yields_replaceStateForRunner.mp h
    rw [toState_ofState] at ht ⊢
    exact .threadCreate ha ht
  | threadStart =>
    obtain ⟨t, ht, h⟩ := yields_getStateOfRunner.mp h
    obtain rfl : s = s' := by simpa [(ha.unique ht).symm, Thread.isEmbryo] using h
    exact .threadStart ha
  | threadJoin target =>
    obtain ⟨ht, rfl⟩ := yields_threadJoin.mp h
    exact .threadJoin ha ht
  | threadExit =>
    obtain ⟨hmain, rfl⟩ := (yields_threadExit ha).mp h
    exact .threadExit ha hmain
  | processExit exitCode =>
    obtain ⟨-, rfl⟩ := yields_replaceStateForRunner.mp h
    rw [toState_ofState]
    exact .processExit ha
  | processAbort =>
    obtain rfl : s = s' := by simpa [Transition.modify, ProcessAbort.modify] using h
    exact .processAbort ha

private theorem fire_of_step {t : Transition} (h : Step s t s') : fire t s = some s' := by
  refine fire_iff_yields.mpr ?_
  cases h with
  | mutexInit ha hm => exact ⟨ha, yields_mutexInit.mpr ⟨_, hm, rfl⟩⟩
  | mutexLock ha hm hfree => exact ⟨ha, yields_mutexLock.mpr ⟨_, hm, hfree, rfl⟩⟩
  | mutexUnlock ha hm hheld => exact ⟨ha, yields_mutexUnlock.mpr ⟨_, hm, hheld, rfl⟩⟩
  | conditionVariableInit ha hcv =>
    exact ⟨ha, yields_conditionVariableInit.mpr ⟨_, hcv, rfl⟩⟩
  | conditionVariableEnqueueThread ha hcv hm hheld =>
    exact ⟨ha, yields_conditionVariableEnqueueThread.mpr ⟨_, hcv, _, hm, hheld, rfl⟩⟩
  | conditionVariableWait ha hcv hm hu hexit hloc hfree hnew =>
    exact ⟨ha, yields_conditionVariableWait.mpr
      ⟨_, hcv, _, hm, hu, hexit, hloc, hfree, _, hnew, rfl⟩⟩
  | conditionVariableSignalLost ha hcv hu hw =>
    exact ⟨ha, yields_conditionVariableSignal.mpr ⟨_, hcv, hu, .inl ⟨hw, rfl⟩⟩⟩
  | conditionVariableSignal ha hcv hu hw =>
    exact ⟨ha, yields_conditionVariableSignal.mpr ⟨_, hcv, hu, .inr ⟨hw, rfl⟩⟩⟩
  | conditionVariableBroadcastLost ha hcv hu hw =>
    exact ⟨ha, yields_conditionVariableBroadcast.mpr ⟨_, hcv, hu, .inl ⟨hw, rfl⟩⟩⟩
  | conditionVariableBroadcast ha hcv hu hw =>
    exact ⟨ha, yields_conditionVariableBroadcast.mpr ⟨_, hcv, hu, .inr ⟨hw, rfl⟩⟩⟩
  | conditionVariableDestroy ha hcv hu hw =>
    exact ⟨ha, yields_conditionVariableDestroy.mpr ⟨_, hcv, hu, hw, rfl⟩⟩
  | semInit ha hsem => exact ⟨ha, yields_semInit.mpr ⟨_, hsem, rfl⟩⟩
  | semPost ha hsem => exact ⟨ha, yields_semPost.mpr ⟨_, hsem, rfl⟩⟩
  | semWait ha hsem hblock => exact ⟨ha, yields_semWait.mpr ⟨_, hsem, hblock, rfl⟩⟩
  | threadCreate ha ht =>
    refine ⟨ha, yields_replaceStateForRunner.mpr ?_⟩
    rw [toState_ofState]
    exact ⟨⟨_, ht⟩, rfl⟩
  | threadStart ha =>
    exact ⟨ha, yields_getStateOfRunner.mpr ⟨_, ha, by simp [Thread.isEmbryo]⟩⟩
  | threadJoin ha ht => exact ⟨ha, yields_threadJoin.mpr ⟨ht, rfl⟩⟩
  | threadExit ha hmain => exact ⟨ha, (yields_threadExit ha).mpr ⟨hmain, rfl⟩⟩
  | processExit ha =>
    refine ⟨ha, yields_replaceStateForRunner.mpr ?_⟩
    rw [toState_ofState]
    exact ⟨⟨_, ha⟩, rfl⟩
  | processAbort ha => exact ⟨ha, by simp [Transition.modify, ProcessAbort.modify]⟩

/-- `fire` makes exactly the steps which `Step` describes. -/
theorem fire_eq_some_iff_step {t : Transition} : fire t s = some s' ↔ Step s t s' :=
  ⟨step_of_fire, fire_of_step⟩

theorem enabled_iff_step {t : Transition} : Enabled t s ↔ ∃ s', Step s t s' := by
  simp only [enabled_iff, fire_eq_some_iff_step]

/-- Only active runners execute transitions. -/
theorem Step.active {t : Transition} (h : Step s t s') : s.Active t.executor :=
  (fire_eq_some_iff.mp (fire_eq_some_iff_step.mpr h)).1

/-- The model is deterministic: a transition leads to one state. -/
theorem Step.unique {t : Transition} {s'' : State} (h : Step s t s') (h' : Step s t s'') :
    s' = s'' :=
  Option.some.inj ((fire_of_step h).symm.trans (fire_of_step h'))

end McMini
