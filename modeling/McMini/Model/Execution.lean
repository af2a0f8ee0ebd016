import McMini.Foundation.Runs
import McMini.Model.Step

/-!
# Runs of the model

A run executes transitions of any number of runners in any order; each must be enabled
where it is executed. The objects and runners of the program are those of the initial
state: one the program comes to know later is in the initial state already, in the state
in which it is discovered, since nothing refers to it before.

Each kind of object has one theorem which says everything a step can do to an object of
that kind (`Step.mutex`, `Step.conditionVariable`, `Step.semaphore`, `Step.thread`).
Invariants of runs are proved by cases on the effect these theorems give.
-/

namespace McMini

open Foundation

/-- The state which executing the transitions `tr` one after the other leads to. -/
def run (s : State) (tr : List Transition) : Option State := runFrom fire s tr

/-- The states reached from `s` by executing enabled transitions. -/
def Reachable (s s' : State) : Prop := ∃ tr, run s tr = some s'

variable {s s' : State} {t : Transition} {tr : List Transition} {i j c : ObjId} {p : RunnerId}

@[simp]
theorem run_nil : run s [] = some s := rfl

theorem run_cons_eq_some :
    run s (t :: tr) = some s' ↔ ∃ s₁, Step s t s₁ ∧ run s₁ tr = some s' := by
  simp only [run, runFrom_cons_eq_some, fire_eq_some_iff_step]

theorem run_concat_eq_some :
    run s (tr ++ [t]) = some s' ↔ ∃ s₁, run s tr = some s₁ ∧ fire t s₁ = some s' :=
  runFrom_concat_eq_some

theorem run_append_eq_some {tr' : List Transition} :
    run s (tr ++ tr') = some s' ↔ ∃ s₁, run s tr = some s₁ ∧ run s₁ tr' = some s' :=
  runFrom_append_eq_some

/-- A property which holds initially and which every step preserves holds after every run.
The property may look at the transitions executed so far. -/
theorem run_induction {s₀ : State} {P : List Transition → State → Prop} (init : P [] s₀)
    (preserved : ∀ tr s t s', run s₀ tr = some s → P tr s → Step s t s' → P (tr ++ [t]) s')
    (h : run s₀ tr = some s) : P tr s :=
  runFrom_induction init
    (fun tr s t s' hrun hP hfire => preserved tr s t s' hrun hP (fire_eq_some_iff_step.mp hfire)) h

/-! ### Frames -/

namespace State

/-- Replacing an object keeps every object of another type. -/
theorem setObjectState_of_type_ne {old o o' : VisibleObjectState}
    (hj : s.objectState j = some old) (hi : s.objectState i = some o)
    (hne : o.objectType ≠ old.objectType) :
    (s.setObjectState j o').objectState i = some o := by
  rw [setObjectState_of_ne, hi]
  rintro rfl
  exact hne (by rw [Option.some.inj (hi.symm.trans hj)])

/-- Of two objects which are there, replacing one keeps the other, unless they are one. -/
theorem setObjectState_cases {old o o' : VisibleObjectState}
    (hj : s.objectState j = some old) (hi : s.objectState i = some o) :
    (i = j ∧ old = o) ∨ (i ≠ j ∧ (s.setObjectState j o').objectState i = some o) := by
  by_cases hij : i = j
  · subst hij
    exact .inl ⟨rfl, Option.some.inj (hj.symm.trans hi)⟩
  · exact .inr ⟨hij, (setObjectState_of_ne hij).trans hi⟩

theorem setThread_eq {t₀ t : Thread} (h : s.HasThread p t₀) :
    ∃ j, s.objidForRunner p = some j ∧ s.objectState j = some (.thread t₀) ∧
      s.setThread p t = s.setObjectState j (.thread t) := by
  obtain ⟨j, hj, ht⟩ := h
  exact ⟨j, hj, ht, by rw [setThread, hj]⟩

@[simp]
theorem setThread_objidForRunner {t : Thread} :
    (s.setThread p t).objidForRunner = s.objidForRunner := by
  unfold setThread
  cases s.objidForRunner p <;> rfl

/-- Replacing a thread keeps every object which is not a thread. -/
theorem setThread_of_type_ne {o : VisibleObjectState} {t₀ t : Thread} (h : s.HasThread p t₀)
    (hi : s.objectState i = some o) (hne : o.objectType ≠ .thread) :
    (s.setThread p t).objectState i = some o := by
  obtain ⟨j, -, hj, heq⟩ := setThread_eq (t := t) h
  rw [heq, setObjectState_of_type_ne hj hi hne]

end State

/-! ### Effects on mutexes -/

/-- The transition takes the mutex when it is executed. -/
def Transition.Acquires (t : Transition) (i : ObjId) : Prop :=
  t.op = .mutexLock i ∨ ∃ c, t.op = .conditionVariableWait c i

/-- The transition gives the mutex up when it is executed. -/
def Transition.Releases (t : Transition) (i : ObjId) : Prop :=
  t.op = .mutexUnlock i ∨ ∃ c, t.op = .conditionVariableEnqueueThread c i

/-- What executing `t` makes of the mutex `m` with identifier `i`. -/
inductive MutexEffect (t : Transition) (i : ObjId) (m : Mutex) : Mutex → Prop
  | unrelated : ¬ t.Acquires i → ¬ t.Releases i → t.op ≠ .mutexInit i → MutexEffect t i m m
  | init : t.op = .mutexInit i → MutexEffect t i m m.released
  | acquire : t.Acquires i → m.isLocked = false → MutexEffect t i m (m.acquiredBy t.executor)
  | release : t.Releases i → m.isLockedBy t.executor = true → MutexEffect t i m m.released

theorem Mutex.isLocked_eq_false_of_isUnlocked {m : Mutex} (h : m.isUnlocked = true) :
    m.isLocked = false := by
  have hs : m.currentState = .unlocked := by simpa [isUnlocked] using h
  simp [isLocked, hs]

/-- A mutex stays a mutex, and a step does one of four things to it. -/
theorem Step.mutex (h : Step s t s') {m : Mutex} (hi : s.objectState i = some (.mutex m)) :
    ∃ m', s'.objectState i = some (.mutex m') ∧ MutexEffect t i m m' := by
  cases h with
  | @mutexInit p j m₀ ha hj =>
    obtain ⟨rfl, ⟨⟩⟩ | ⟨hij, hi'⟩ := State.setObjectState_cases hj hi
    · exact ⟨_, State.setObjectState_self, .init rfl⟩
    · exact ⟨m, hi', .unrelated (by simp [Transition.Acquires])
        (by simp [Transition.Releases]) (by simp [hij.symm])⟩
  | @mutexLock p j m₀ ha hj hfree =>
    obtain ⟨rfl, ⟨⟩⟩ | ⟨hij, hi'⟩ := State.setObjectState_cases hj hi
    · exact ⟨_, State.setObjectState_self, .acquire (.inl rfl) hfree⟩
    · exact ⟨m, hi', .unrelated (by simp [Transition.Acquires, hij.symm])
        (by simp [Transition.Releases]) (by simp)⟩
  | @mutexUnlock p j m₀ ha hj hheld =>
    obtain ⟨rfl, ⟨⟩⟩ | ⟨hij, hi'⟩ := State.setObjectState_cases hj hi
    · exact ⟨_, State.setObjectState_self, .release (.inl rfl) hheld⟩
    · exact ⟨m, hi', .unrelated (by simp [Transition.Acquires])
        (by simp [Transition.Releases, hij.symm]) (by simp)⟩
  | @conditionVariableEnqueueThread p c j cv m₀ ha hcv hj hheld =>
    have keep : ∀ {k m o}, s.objectState k = some (.mutex m) →
        (s.setObjectState c (.conditionVariable o)).objectState k = some (.mutex m) :=
      fun hk => State.setObjectState_of_type_ne hcv hk (by simp)
    obtain ⟨rfl, ⟨⟩⟩ | ⟨hij, hi'⟩ := State.setObjectState_cases (keep hj) (keep hi)
    · exact ⟨_, State.setObjectState_self, .release (.inr ⟨c, rfl⟩) hheld⟩
    · exact ⟨m, hi', .unrelated (by simp [Transition.Acquires])
        (by simp [Transition.Releases, hij.symm]) (by simp)⟩
  | @conditionVariableWait p c j cv newCv m₀ ha hcv hj hu hexit hloc hfree hnew =>
    have hcv' : (s.setObjectState j (.mutex (m₀.acquiredBy p))).objectState c =
        some (.conditionVariable cv) := State.setObjectState_of_type_ne hj hcv (by simp)
    obtain ⟨rfl, ⟨⟩⟩ | ⟨hij, hi'⟩ := State.setObjectState_cases hj hi
    · exact ⟨_, State.setObjectState_of_type_ne hcv' State.setObjectState_self (by simp),
        .acquire (.inr ⟨c, rfl⟩) (Mutex.isLocked_eq_false_of_isUnlocked hfree)⟩
    · exact ⟨m, State.setObjectState_of_type_ne hcv' hi' (by simp), .unrelated
        (by simp [Transition.Acquires, hij.symm]) (by simp [Transition.Releases]) (by simp)⟩
  | conditionVariableInit ha hcv | conditionVariableSignal ha hcv hu hw
  | conditionVariableBroadcast ha hcv hu hw | conditionVariableDestroy ha hcv hu hw
  | semInit ha hcv | semPost ha hcv | semWait ha hcv hblock =>
    exact ⟨m, State.setObjectState_of_type_ne hcv hi (by simp), .unrelated
      (by simp [Transition.Acquires]) (by simp [Transition.Releases]) (by simp)⟩
  | threadCreate ha ht =>
    exact ⟨m, State.setThread_of_type_ne ht hi (by simp), .unrelated
      (by simp [Transition.Acquires]) (by simp [Transition.Releases]) (by simp)⟩
  | threadExit ha hmain | processExit ha =>
    exact ⟨m, State.setThread_of_type_ne ha hi (by simp), .unrelated
      (by simp [Transition.Acquires]) (by simp [Transition.Releases]) (by simp)⟩
  | conditionVariableSignalLost ha hcv hu hw | conditionVariableBroadcastLost ha hcv hu hw
  | threadStart ha | threadJoin ha ht | processAbort ha =>
    exact ⟨m, hi, .unrelated
      (by simp [Transition.Acquires]) (by simp [Transition.Releases]) (by simp)⟩

/-! ### Effects on condition variables -/

/-- What executing `t` in `s` makes of the condition variable `cv` with identifier `c`. -/
inductive ConditionVariableEffect (s : State) (t : Transition) (c : ObjId)
    (cv : ConditionVariable) : ConditionVariable → Prop
  | unchanged : t.op ≠ .conditionVariableInit c →
      (∀ i, t.op ≠ .conditionVariableEnqueueThread c i) →
      (∀ i, t.op ≠ .conditionVariableWait c i) → t.op ≠ .conditionVariableDestroy c →
      (t.op = .conditionVariableSignal c → cv.Usable ∧ cv.hasWaiters = false) →
      (t.op = .conditionVariableBroadcast c → cv.Usable ∧ cv.hasWaiters = false) →
      ConditionVariableEffect s t c cv cv
  | init : t.op = .conditionVariableInit c →
      ConditionVariableEffect s t c cv { currentState := .initialized }
  | enqueue {i m} : t.op = .conditionVariableEnqueueThread c i →
      s.objectState i = some (.mutex m) → m.isLockedBy t.executor = true →
      ConditionVariableEffect s t c cv (cv.enqueueThread t.executor m.location)
  | wait {i m newCv} : t.op = .conditionVariableWait c i → s.objectState i = some (.mutex m) →
      cv.Usable → cv.waiterCanExit t.executor = true → m.location = cv.associatedMutex →
      m.isUnlocked = true → cv.wait t.executor m.location = some newCv →
      ConditionVariableEffect s t c cv newCv
  | signal : t.op = .conditionVariableSignal c → cv.Usable → cv.hasWaiters = true →
      ConditionVariableEffect s t c cv cv.signal
  | broadcast : t.op = .conditionVariableBroadcast c → cv.Usable → cv.hasWaiters = true →
      ConditionVariableEffect s t c cv (cv.broadcast t.executor)
  | destroy : t.op = .conditionVariableDestroy c → cv.Usable → cv.hasWaiters = false →
      ConditionVariableEffect s t c cv { currentState := .destroyed, runningThread := t.executor }

/-- A condition variable stays one, and a step does one of seven things to it. -/
theorem Step.conditionVariable (h : Step s t s') {cv : ConditionVariable}
    (hc : s.objectState c = some (.conditionVariable cv)) :
    ∃ cv', s'.objectState c = some (.conditionVariable cv') ∧
      ConditionVariableEffect s t c cv cv' := by
  cases h with
  | @conditionVariableInit p d cv₀ ha hd =>
    obtain ⟨rfl, ⟨⟩⟩ | ⟨hne, hc'⟩ := State.setObjectState_cases hd hc
    · exact ⟨_, State.setObjectState_self, .init rfl⟩
    · exact ⟨cv, hc', .unchanged (by simp [hne.symm]) (by simp) (by simp) (by simp) (by simp)
        (by simp)⟩
  | @conditionVariableEnqueueThread p d i cv₀ m ha hd hi hheld =>
    have hm' : ∀ {o}, (s.setObjectState d (.conditionVariable o)).objectState i =
        some (.mutex m) := State.setObjectState_of_type_ne hd hi (by simp)
    obtain ⟨rfl, ⟨⟩⟩ | ⟨hne, hc'⟩ := State.setObjectState_cases hd hc
    · exact ⟨_, State.setObjectState_of_type_ne hm' State.setObjectState_self (by simp),
        .enqueue rfl hi hheld⟩
    · exact ⟨cv, State.setObjectState_of_type_ne hm' hc' (by simp), .unchanged
        (by simp) (by simp [hne.symm]) (by simp) (by simp) (by simp) (by simp)⟩
  | @conditionVariableWait p d i cv₀ newCv m ha hd hi hu hexit hloc hfree hnew =>
    have keep : ∀ {k cv}, s.objectState k = some (.conditionVariable cv) →
        (s.setObjectState i (.mutex (m.acquiredBy p))).objectState k =
          some (.conditionVariable cv) :=
      fun hk => State.setObjectState_of_type_ne hi hk (by simp)
    obtain ⟨rfl, ⟨⟩⟩ | ⟨hne, hc'⟩ := State.setObjectState_cases (keep hd) (keep hc)
    · exact ⟨_, State.setObjectState_self, .wait rfl hi hu hexit hloc hfree hnew⟩
    · exact ⟨cv, hc', .unchanged (by simp) (by simp) (by simp [hne.symm]) (by simp) (by simp)
        (by simp)⟩
  | @conditionVariableSignalLost p d cv₀ ha hd hu hw =>
    refine ⟨cv, hc, .unchanged (by simp) (by simp) (by simp) (by simp) ?_ (by simp)⟩
    rintro ⟨⟩
    obtain rfl : cv₀ = cv := by simpa [hd] using hc
    exact ⟨hu, hw⟩
  | @conditionVariableSignal p d cv₀ ha hd hu hw =>
    obtain ⟨rfl, ⟨⟩⟩ | ⟨hne, hc'⟩ := State.setObjectState_cases hd hc
    · exact ⟨_, State.setObjectState_self, .signal rfl hu hw⟩
    · exact ⟨cv, hc', .unchanged (by simp) (by simp) (by simp) (by simp) (by simp [hne.symm])
        (by simp)⟩
  | @conditionVariableBroadcastLost p d cv₀ ha hd hu hw =>
    refine ⟨cv, hc, .unchanged (by simp) (by simp) (by simp) (by simp) (by simp) ?_⟩
    rintro ⟨⟩
    obtain rfl : cv₀ = cv := by simpa [hd] using hc
    exact ⟨hu, hw⟩
  | @conditionVariableBroadcast p d cv₀ ha hd hu hw =>
    obtain ⟨rfl, ⟨⟩⟩ | ⟨hne, hc'⟩ := State.setObjectState_cases hd hc
    · exact ⟨_, State.setObjectState_self, .broadcast rfl hu hw⟩
    · exact ⟨cv, hc', .unchanged (by simp) (by simp) (by simp) (by simp) (by simp)
        (by simp [hne.symm])⟩
  | @conditionVariableDestroy p d cv₀ ha hd hu hw =>
    obtain ⟨rfl, ⟨⟩⟩ | ⟨hne, hc'⟩ := State.setObjectState_cases hd hc
    · exact ⟨_, State.setObjectState_self, .destroy rfl hu hw⟩
    · exact ⟨cv, hc', .unchanged (by simp) (by simp) (by simp) (by simp [hne.symm]) (by simp)
        (by simp)⟩
  | mutexInit ha hd | mutexLock ha hd hfree | mutexUnlock ha hd hheld
  | semInit ha hd | semPost ha hd | semWait ha hd hblock =>
    exact ⟨cv, State.setObjectState_of_type_ne hd hc (by simp), .unchanged
      (by simp) (by simp) (by simp) (by simp) (by simp) (by simp)⟩
  | threadCreate ha ht =>
    exact ⟨cv, State.setThread_of_type_ne ht hc (by simp), .unchanged
      (by simp) (by simp) (by simp) (by simp) (by simp) (by simp)⟩
  | threadExit ha hmain | processExit ha =>
    exact ⟨cv, State.setThread_of_type_ne ha hc (by simp), .unchanged
      (by simp) (by simp) (by simp) (by simp) (by simp) (by simp)⟩
  | threadStart ha | threadJoin ha ht | processAbort ha =>
    exact ⟨cv, hc, .unchanged (by simp) (by simp) (by simp) (by simp) (by simp) (by simp)⟩

/-! ### Effects on semaphores -/

/-- What executing `t` makes of the semaphore `sem` with identifier `i`. -/
inductive SemaphoreEffect (t : Transition) (i : ObjId) (sem : Semaphore) : Semaphore → Prop
  | unrelated : (∀ n, t.op ≠ .semInit i n) → t.op ≠ .semPost i → t.op ≠ .semWait i →
      SemaphoreEffect t i sem sem
  | init {n} : t.op = .semInit i n → SemaphoreEffect t i sem (.ofCount n)
  | post : t.op = .semPost i → SemaphoreEffect t i sem (.ofCount (sem.count + 1))
  | wait : t.op = .semWait i → sem.willBlock = false →
      SemaphoreEffect t i sem (.ofCount (sem.count - 1))

/-- A semaphore stays a semaphore, and a step does one of four things to it. -/
theorem Step.semaphore (h : Step s t s') {sem : Semaphore}
    (hi : s.objectState i = some (.semaphore sem)) :
    ∃ sem', s'.objectState i = some (.semaphore sem') ∧ SemaphoreEffect t i sem sem' := by
  cases h with
  | @semInit p j n sem₀ ha hj =>
    obtain ⟨rfl, ⟨⟩⟩ | ⟨hij, hi'⟩ := State.setObjectState_cases hj hi
    · exact ⟨_, State.setObjectState_self, .init rfl⟩
    · exact ⟨sem, hi', .unrelated (by simp [hij.symm]) (by simp) (by simp)⟩
  | @semPost p j sem₀ ha hj =>
    obtain ⟨rfl, ⟨⟩⟩ | ⟨hij, hi'⟩ := State.setObjectState_cases hj hi
    · exact ⟨_, State.setObjectState_self, .post rfl⟩
    · exact ⟨sem, hi', .unrelated (by simp) (by simp [hij.symm]) (by simp)⟩
  | @semWait p j sem₀ ha hj hblock =>
    obtain ⟨rfl, ⟨⟩⟩ | ⟨hij, hi'⟩ := State.setObjectState_cases hj hi
    · exact ⟨_, State.setObjectState_self, .wait rfl hblock⟩
    · exact ⟨sem, hi', .unrelated (by simp) (by simp) (by simp [hij.symm])⟩
  | conditionVariableEnqueueThread ha hcv hm hheld =>
    exact ⟨sem, State.setObjectState_of_type_ne (State.setObjectState_of_type_ne hcv hm (by simp))
      (State.setObjectState_of_type_ne hcv hi (by simp)) (by simp),
      .unrelated (by simp) (by simp) (by simp)⟩
  | conditionVariableWait ha hcv hm hu hexit hloc hfree hnew =>
    exact ⟨sem, State.setObjectState_of_type_ne (State.setObjectState_of_type_ne hm hcv (by simp))
      (State.setObjectState_of_type_ne hm hi (by simp)) (by simp),
      .unrelated (by simp) (by simp) (by simp)⟩
  | mutexInit ha hd | mutexLock ha hd hfree | mutexUnlock ha hd hheld
  | conditionVariableInit ha hd | conditionVariableSignal ha hd hu hw
  | conditionVariableBroadcast ha hd hu hw | conditionVariableDestroy ha hd hu hw =>
    exact ⟨sem, State.setObjectState_of_type_ne hd hi (by simp),
      .unrelated (by simp) (by simp) (by simp)⟩
  | threadCreate ha ht =>
    exact ⟨sem, State.setThread_of_type_ne ht hi (by simp),
      .unrelated (by simp) (by simp) (by simp)⟩
  | threadExit ha hmain | processExit ha =>
    exact ⟨sem, State.setThread_of_type_ne ha hi (by simp),
      .unrelated (by simp) (by simp) (by simp)⟩
  | conditionVariableSignalLost ha hcv hu hw | conditionVariableBroadcastLost ha hcv hu hw
  | threadStart ha | threadJoin ha ht | processAbort ha =>
    exact ⟨sem, hi, .unrelated (by simp) (by simp) (by simp)⟩

/-! ### Effects on threads -/

/-- What executing `t` makes of the thread `th` of the runner `r`. -/
inductive ThreadEffect (t : Transition) (r : RunnerId) (th : Thread) : Thread → Prop
  | unrelated : t.op ≠ .threadCreate r → ThreadEffect t r th th
  | create : t.op = .threadCreate r → ThreadEffect t r th ⟨.running⟩
  | exit : t.executor = r → th = ⟨.running⟩ → t.op ≠ .threadCreate r →
      ThreadEffect t r th ⟨.exited⟩

/-- Replacing the thread of one runner keeps the threads of all others. -/
theorem State.HasThread.setThread {r : RunnerId} {th th₀ : Thread} (h : s.HasThread r th)
    (hp : s.HasThread p th₀) (th' : Thread) :
    (r = p ∧ (s.setThread p th').HasThread r th') ∨
      (r ≠ p ∧ (s.setThread p th').HasThread r th) := by
  obtain ⟨i, hi, hth⟩ := h
  obtain ⟨j, hj, hth₀, heq⟩ := State.setThread_eq (t := th') hp
  rw [heq]
  by_cases hr : r = p
  · subst hr
    exact .inl ⟨rfl, j, hj, State.setObjectState_self⟩
  · refine .inr ⟨hr, i, hi, ?_⟩
    have hij : i ≠ j := fun h => hr (s.objidForRunner_injective hi (h ▸ hj))
    rw [State.setObjectState_of_ne hij, hth]

/-- Replacing an object which is not a thread keeps all threads. -/
theorem State.HasThread.setObjectState {r : RunnerId} {th : Thread} (h : s.HasThread r th)
    {o o' : VisibleObjectState} (ho : s.objectState i = some o) (hne : o.objectType ≠ .thread) :
    (s.setObjectState i o').HasThread r th := by
  obtain ⟨j, hj, hth⟩ := h
  exact ⟨j, hj, State.setObjectState_of_type_ne ho hth hne.symm⟩

/-- Threads are created and exit; nothing else happens to them. -/
theorem Step.thread (h : Step s t s') {r : RunnerId} {th : Thread} (hr : s.HasThread r th) :
    ∃ th', s'.HasThread r th' ∧ ThreadEffect t r th th' := by
  cases h with
  | @threadCreate p target th₀ ha ht =>
    obtain ⟨rfl, hr'⟩ | ⟨hne, hr'⟩ := hr.setThread ht ⟨.running⟩
    · exact ⟨_, hr', .create rfl⟩
    · exact ⟨_, hr', .unrelated (by simp [hne.symm])⟩
  | threadExit ha hmain | processExit ha =>
    obtain ⟨rfl, hr'⟩ | ⟨hne, hr'⟩ := hr.setThread ha ⟨.exited⟩
    · exact ⟨_, hr', .exit rfl (hr.unique ha) (by simp)⟩
    · exact ⟨_, hr', .unrelated (by simp)⟩
  | mutexInit ha hd | mutexLock ha hd hfree | mutexUnlock ha hd hheld
  | conditionVariableInit ha hd | conditionVariableSignal ha hd hu hw
  | conditionVariableBroadcast ha hd hu hw | conditionVariableDestroy ha hd hu hw
  | semInit ha hd | semPost ha hd | semWait ha hd hblock =>
    exact ⟨th, hr.setObjectState hd (by simp), .unrelated (by simp)⟩
  | conditionVariableEnqueueThread ha hcv hm hheld =>
    exact ⟨th, (hr.setObjectState hcv (by simp)).setObjectState
      (State.setObjectState_of_type_ne hcv hm (by simp)) (by simp), .unrelated (by simp)⟩
  | conditionVariableWait ha hcv hm hu hexit hloc hfree hnew =>
    exact ⟨th, (hr.setObjectState hm (by simp)).setObjectState
      (State.setObjectState_of_type_ne hm hcv (by simp)) (by simp), .unrelated (by simp)⟩
  | conditionVariableSignalLost ha hcv hu hw | conditionVariableBroadcastLost ha hcv hu hw
  | threadStart ha | threadJoin ha ht | processAbort ha =>
    exact ⟨th, hr, .unrelated (by simp)⟩

end McMini
