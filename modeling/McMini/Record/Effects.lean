import McMini.Record.Wrappers

/-!
# What the wrappers do to the objects

Most steps of a wrapper only move the thread, or touch the records of semaphores and threads.
`Effect` lists what the others do to mutexes, to condition variables and to their records, and
`effect_of_step` says that there is nothing else.
-/

namespace McMini.Record

/-- What the place of a thread means for the objects. -/
structure Role where
  /-- The mutex whose record the thread is about to lock. -/
  recordsLock : Option Addr := none
  /-- The mutex whose record the thread is about to unlock. -/
  recordsUnlock : Option Addr := none
  /-- The condition variable on which the thread is inside `mc_pthread_cond_wait`. -/
  waitsOn : Option Addr := none
  /-- The mutex with which the thread is inside `libpthread_cond_timedwait`. -/
  waitsWith : Option Addr := none
  /-- The thread has posted `dmtcp_restart_sem`. -/
  isParked : Bool := false
  deriving DecidableEq

namespace Pc

def role : Pc → Role
  | .locked mutex => { recordsLock := some mutex }
  | .unlocked mutex => { recordsUnlock := some mutex }
  | .wait cond _ | .returned cond _ _ | .checkIn (some (.condWait cond _)) =>
    { waitsOn := some cond }
  | .blocked cond mutex | .reacquiring cond mutex _ =>
    { waitsOn := some cond, waitsWith := some mutex }
  | .parked (some (.condWait cond _)) => { waitsOn := some cond, isParked := true }
  | .parked _ => { isParked := true }
  | _ => {}

theorem role_parked (left : Option Operation) :
    (parked left).role = { (checkIn left).role with isParked := true } := by
  rcases left with _ | (_ | _ | _ | _ | _ | _ | _ | _ | _) <;> rfl

/-- A move between two places which mean the same, and no step which is due. -/
structure Quiet (pc pc' : Pc) : Prop where
  role_eq : pc'.role = pc.role
  recordsLock : pc.role.recordsLock = none
  recordsUnlock : pc.role.recordsUnlock = none
  isParked : pc.role.isParked = false
  timedOut : ∀ cond mutex rc, pc = .returned cond mutex rc → rc = .timedOut

end Pc

/-- The thread really holds the mutex. -/
def State.Holds (s : State) (p : RunnerId) (mutex : Addr) : Prop :=
  ∃ reacquired, s.holder mutex = some ⟨p, reacquired⟩

/-- The thread is blocked inside `libpthread_cond_timedwait`, to which it has passed the mutex. -/
def State.BlockedWith (s : State) (p : RunnerId) (mutex : Addr) : Prop :=
  (s.pc p).role.waitsWith = some mutex

/-- What a step of the thread `p` does. -/
inductive Effect (p : RunnerId) (s : State) : State → Prop
  | quiet {pc' semaphoreRecords semaphores threadRecords} : (s.pc p).Quiet pc' →
      Effect p s (State.goTo { s with semaphoreRecords, semaphores, threadRecords } p pc')
  | park {left} : s.pc p = .checkIn left → Effect p s (s.goTo p (.parked left))
  | recordMutex {mutex} : s.pc p = .entered (.mutexLock mutex) →
      Effect p s ((s.setMutexRecord mutex (s.mutexRecord mutex)).goTo p (.lock mutex))
  | lock {mutex} : s.pc p = .lock mutex → s.holder mutex = none →
      Effect p s ((s.setHolder mutex (some ⟨p, false⟩)).goTo p (.locked mutex))
  | recordLocked {mutex} : s.pc p = .locked mutex →
      Effect p s ((s.setMutexRecord mutex ⟨.locked, p⟩).goTo p .outside)
  | unlock {mutex reacquired} : s.pc p = .unlock mutex → s.holder mutex = some ⟨p, reacquired⟩ →
      Effect p s ((s.setHolder mutex none).goTo p (.unlocked mutex))
  | recordUnlocked {mutex} : s.pc p = .unlocked mutex →
      Effect p s ((s.setMutexRecord mutex ⟨.unlocked, ridInvalid⟩).goTo p .outside)
  | release {cond mutex reacquired} : s.pc p = .wait cond mutex →
      s.holder mutex = some ⟨p, reacquired⟩ →
      Effect p s ((s.setHolder mutex none).goTo p (.blocked cond mutex))
  | reacquire {cond mutex rc} : s.pc p = .reacquiring cond mutex rc → s.holder mutex = none →
      Effect p s ((s.setHolder mutex (some ⟨p, true⟩)).goTo p (.returned cond mutex rc))
  | enterWait {cond mutex} : s.pc p = .entered (.condWait cond mutex) →
      Effect p s (((s.setConditionVariableRecord cond
        ((s.conditionVariableRecord p cond mutex).enterWait p mutex)).setWaiters cond
          (s.waiters cond ++ [p])).goTo p (.wait cond mutex))
  | leaveWait {cond mutex r r'} : s.pc p = .returned cond mutex .ok →
      s.conditionVariableRecords cond = some r → r.leaveWait p = some r' →
      Effect p s (((s.setConditionVariableRecord cond r').setWaiters cond
        ((s.waiters cond).erase p)).goTo p .outside)
  | failWait {cond mutex} : s.pc p = .returned cond mutex .error →
      Effect p s ((s.setWaiters cond ((s.waiters cond).erase p)).goTo p .outside)
  | signal {cond pc' r} : (s.pc p).Quiet pc' →
      r.waitingThreads.threads = (s.conditionVariableRecord p cond 0).waitingThreads.threads →
      r.count = (s.conditionVariableRecord p cond 0).count →
      ((∀ node ∈ (s.conditionVariableRecord p cond 0).waitingThreads,
        node.threadCvState ≠ .waiting) →
          r.waitingThreads = (s.conditionVariableRecord p cond 0).waitingThreads) →
      Effect p s ((s.setConditionVariableRecord cond r).goTo p pc')

variable {p : RunnerId} {s s' : State}

/-- A move which changes nothing else. -/
theorem Effect.move {pc' : Pc} (h : (s.pc p).Quiet pc') : Effect p s (s.goTo p pc') :=
  @Effect.quiet p s pc' s.semaphoreRecords s.semaphores s.threadRecords h

/-- A timed-out loop goes on or is left. -/
theorem Effect.retry {op : Operation} {pc' : Pc} (h : (s.pc p).Quiet pc')
    (hleft : (s.pc p).Quiet (.checkIn (some op))) : Effect p s (s.retry p op pc') := by
  unfold State.retry
  split
  · exact .move hleft
  · exact .move h

/-! ### The condition variable's records -/

namespace ConditionVariableRecord

variable {r r' : ConditionVariableRecord} {thread : RunnerId} {mutex : Addr}

theorem enterWait_waitingThreads :
    (r.enterWait thread mutex).waitingThreads =
      if thread ∈ r.waitingThreads.threads then r.waitingThreads
      else r.waitingThreads ++ [⟨thread, .prewaiting⟩] := by
  simp only [enterWait, ThreadQueue.isInThreadQueue_iff, ThreadQueue.enqueueThread]

theorem leaveWait_cases (h : r.leaveWait thread = some r') :
    (⟨thread, .signaled⟩ ∈ r.waitingThreads ∧
        r'.waitingThreads.threads = r.waitingThreads.threads.erase thread ∧
        r'.count = r.count - 1) ∨
      (r'.waitingThreads.threads = r.waitingThreads.threads ∧ r'.count = r.count) := by
  obtain ⟨cvState, hcv, rfl⟩ := Option.map_eq_some_iff.mp h
  by_cases hsignaled : cvState = .signaled
  · subst hsignaled
    rw [if_pos rfl]
    exact .inl ⟨ThreadQueue.exists_of_getThreadCvState hcv,
      ThreadQueue.threads_removeThreadFromQueue, rfl⟩
  · rw [if_neg hsignaled]
    exact .inr ⟨ThreadQueue.threads_updateThreadCvState, rfl⟩

theorem getWaitingThreadNode_of_none
    (h : ∀ node ∈ r.waitingThreads, node.threadCvState ≠ .waiting) :
    r.waitingThreads.getWaitingThreadNode = ridInvalid := by
  have hnone : r.waitingThreads.find? (·.threadCvState = .waiting) = none := by
    rw [List.find?_eq_none]
    intro node hnode
    simpa using h node hnode
  rw [ThreadQueue.getWaitingThreadNode, hnone]
  rfl

/-- A signal reorders nothing, and changes nothing when no thread is marked as waiting. -/
theorem afterSignal_waitingThreads :
    r.afterSignal.waitingThreads.threads = r.waitingThreads.threads ∧
      ((∀ node ∈ r.waitingThreads, node.threadCvState ≠ .waiting) →
        r.afterSignal.waitingThreads = r.waitingThreads) := by
  unfold afterSignal
  dsimp only
  constructor
  · split
    · exact ThreadQueue.threads_updateThreadCvState
    · rfl
  · intro h
    rw [getWaitingThreadNode_of_none h, if_neg (by simp)]

/-- Neither does a broadcast. -/
theorem afterBroadcast_waitingThreads :
    r.afterBroadcast.waitingThreads.threads = r.waitingThreads.threads ∧
      ((∀ node ∈ r.waitingThreads, node.threadCvState ≠ .waiting) →
        r.afterBroadcast.waitingThreads = r.waitingThreads) := by
  unfold afterBroadcast
  dsimp only
  generalize hnodes : r.waitingThreads = nodes
  have hthreads : ∀ (visited queue : ThreadQueue),
      (visited.foldl (fun queue node =>
        if node.threadCvState = .waiting then queue.updateThreadCvState node.thread .signaled
        else queue) queue).threads = queue.threads := by
    intro visited
    induction visited with
    | nil =>
      intro queue
      rfl
    | cons node visited ih =>
      intro queue
      rw [List.foldl_cons, ih]
      split
      · exact ThreadQueue.threads_updateThreadCvState
      · rfl
  have hsame : ∀ (visited queue : ThreadQueue), (∀ node ∈ visited, node.threadCvState ≠ .waiting) →
      visited.foldl (fun queue node =>
        if node.threadCvState = .waiting then queue.updateThreadCvState node.thread .signaled
        else queue) queue = queue := by
    intro visited
    induction visited with
    | nil =>
      intro queue _
      rfl
    | cons node visited ih =>
      intro queue h
      rw [List.foldl_cons, if_neg (h node (List.mem_cons_self ..))]
      exact ih queue fun node' hnode' => h node' (List.mem_cons_of_mem _ hnode')
  exact ⟨hthreads nodes nodes, hsame nodes nodes⟩

end ConditionVariableRecord

/-! ### Each step has one of these effects -/

theorem State.conditionVariableRecord_of_some {cond mutex : Addr} {r : ConditionVariableRecord}
    (h : s.conditionVariableRecords cond = some r) : s.conditionVariableRecord p cond mutex = r := by
  rw [conditionVariableRecord, h, Option.getD_some]

theorem effect_of_enter {op : Operation} (hpc : s.pc p = .entered op) (h : s.enter p op = some s') :
    Effect p s s' := by
  have quiet : ∀ {pc'}, (Pc.entered op).Quiet pc' → (s.pc p).Quiet pc' := fun hq => hpc ▸ hq
  cases op with
  | mutexLock mutex =>
    obtain rfl := Option.some.inj h
    exact .recordMutex hpc
  | mutexUnlock mutex =>
    rw [State.enter, Option.ite_none_right_eq_some, Option.some.injEq] at h
    obtain ⟨-, rfl⟩ := h
    exact .move (quiet ⟨rfl, rfl, rfl, rfl, nofun⟩)
  | condWait cond mutex =>
    obtain rfl := Option.some.inj h
    exact .enterWait hpc
  | condSignal cond =>
    obtain rfl := Option.some.inj h
    exact .signal (quiet ⟨rfl, rfl, rfl, rfl, nofun⟩) rfl rfl fun _ => rfl
  | condBroadcast cond =>
    obtain rfl := Option.some.inj h
    exact .signal (quiet ⟨rfl, rfl, rfl, rfl, nofun⟩) rfl rfl fun _ => rfl
  | semWait sem =>
    obtain rfl := Option.some.inj h
    exact .quiet (quiet ⟨rfl, rfl, rfl, rfl, nofun⟩)
  | semPost sem =>
    obtain rfl := Option.some.inj h
    exact .quiet (quiet ⟨rfl, rfl, rfl, rfl, nofun⟩)
  | join t =>
    rw [State.enter, Option.ite_none_right_eq_some, Option.some.injEq] at h
    obtain ⟨-, rfl⟩ := h
    exact .move (quiet ⟨rfl, rfl, rfl, rfl, nofun⟩)
  | exit =>
    obtain rfl := Option.some.inj h
    exact .quiet (quiet ⟨rfl, rfl, rfl, rfl, nofun⟩)

/-- The holder of a mutex is the thread which gives it up. -/
theorem exists_holder {mutex : Addr} (h : (s.holder mutex).map (·.thread) = some p) :
    ∃ reacquired, s.holder mutex = some ⟨p, reacquired⟩ := by
  obtain ⟨⟨_, reacquired⟩, hholder, rfl⟩ := Option.map_eq_some_iff.mp h
  exact ⟨reacquired, hholder⟩

theorem effect_of_proceed (h : s.proceed p = some s') : Effect p s s' := by
  unfold State.proceed at h
  have quiet : ∀ {pc pc'}, s.pc p = pc → pc.Quiet pc' → (s.pc p).Quiet pc' :=
    fun hpc hq => hpc ▸ hq
  split at h
  -- the beginning of any wrapper
  next op hpc => exact effect_of_enter hpc h
  -- `mc_pthread_mutex_lock`: the call, the record, and the loop
  next mutex hpc =>
    rw [Option.ite_none_right_eq_some, Option.some.injEq] at h
    obtain ⟨hfree, rfl⟩ := h
    exact .lock hpc hfree
  next mutex hpc =>
    obtain rfl := Option.some.inj h
    exact .recordLocked hpc
  next mutex hpc =>
    obtain rfl := Option.some.inj h
    exact .retry (quiet hpc ⟨rfl, rfl, rfl, rfl, nofun⟩)
      (quiet hpc ⟨rfl, rfl, rfl, rfl, nofun⟩)
  -- `mc_pthread_mutex_unlock`
  next mutex hpc =>
    rw [Option.ite_none_right_eq_some, Option.some.injEq] at h
    obtain ⟨hheld, rfl⟩ := h
    obtain ⟨reacquired, hholder⟩ := exists_holder hheld
    exact .unlock hpc hholder
  next mutex hpc =>
    obtain rfl := Option.some.inj h
    exact .recordUnlocked hpc
  -- `mc_pthread_cond_wait`: the mutex is given up and taken again within the call
  next cond mutex hpc =>
    rw [Option.ite_none_right_eq_some, Option.some.injEq] at h
    obtain ⟨hheld, rfl⟩ := h
    obtain ⟨reacquired, hholder⟩ := exists_holder hheld
    exact .release hpc hholder
  next cond mutex hpc =>
    obtain rfl := Option.some.inj h
    exact .move (quiet hpc ⟨rfl, rfl, rfl, rfl, nofun⟩)
  next cond mutex rc hpc =>
    rw [Option.ite_none_right_eq_some, Option.some.injEq] at h
    obtain ⟨hfree, rfl⟩ := h
    exact .reacquire hpc hfree
  next cond mutex hpc =>
    -- the call has returned, and the queue is updated
    obtain ⟨r, hr, h⟩ := Option.bind_eq_some_iff.mp h
    obtain ⟨r', hr', rfl⟩ := Option.map_eq_some_iff.mp h
    exact .leaveWait hpc hr hr'
  next cond mutex hpc =>
    obtain rfl := Option.some.inj h
    -- the call has timed out, so what it returned is known
    have htimedOut : ∀ c m rc, Pc.returned cond mutex .timedOut = .returned c m rc →
        rc = .timedOut := by
      rintro _ _ _ ⟨⟩
      rfl
    exact .retry (quiet hpc ⟨rfl, rfl, rfl, rfl, htimedOut⟩)
      (quiet hpc ⟨rfl, rfl, rfl, rfl, htimedOut⟩)
  next cond mutex hpc =>
    obtain rfl := Option.some.inj h
    exact .failWait hpc
  -- `mc_pthread_cond_signal` and `mc_pthread_cond_broadcast`: the call, then the record
  next cond hpc =>
    obtain rfl := Option.some.inj h
    exact .move (quiet hpc ⟨rfl, rfl, rfl, rfl, nofun⟩)
  next cond hpc =>
    obtain ⟨r, hr, rfl⟩ := Option.map_eq_some_iff.mp h
    have hr' : s.conditionVariableRecord p cond 0 = r := State.conditionVariableRecord_of_some hr
    obtain ⟨hthreads, hsame⟩ := ConditionVariableRecord.afterSignal_waitingThreads (r := r)
    exact .signal (quiet hpc ⟨rfl, rfl, rfl, rfl, nofun⟩) (by rw [hr', hthreads])
      (by rw [hr']; rfl) (by rwa [hr'])
  next cond hpc =>
    obtain rfl := Option.some.inj h
    exact .move (quiet hpc ⟨rfl, rfl, rfl, rfl, nofun⟩)
  next cond hpc =>
    obtain ⟨r, hr, rfl⟩ := Option.map_eq_some_iff.mp h
    have hr' : s.conditionVariableRecord p cond 0 = r := State.conditionVariableRecord_of_some hr
    obtain ⟨hthreads, hsame⟩ := ConditionVariableRecord.afterBroadcast_waitingThreads (r := r)
    exact .signal (quiet hpc ⟨rfl, rfl, rfl, rfl, nofun⟩) (by rw [hr', hthreads])
      (by rw [hr']; rfl) (by rwa [hr'])
  -- `mc_sem_wait` and `mc_sem_post`
  next sem hpc =>
    rw [Option.ite_none_right_eq_some, Option.some.injEq] at h
    obtain ⟨-, rfl⟩ := h
    exact .quiet (quiet hpc ⟨rfl, rfl, rfl, rfl, nofun⟩)
  next sem hpc =>
    obtain ⟨r, -, rfl⟩ := Option.map_eq_some_iff.mp h
    exact .quiet (quiet hpc ⟨rfl, rfl, rfl, rfl, nofun⟩)
  next sem hpc =>
    obtain rfl := Option.some.inj h
    exact .quiet (quiet hpc ⟨rfl, rfl, rfl, rfl, nofun⟩)
  next sem hpc =>
    obtain ⟨r, -, rfl⟩ := Option.map_eq_some_iff.mp h
    exact .quiet (quiet hpc ⟨rfl, rfl, rfl, rfl, nofun⟩)
  -- `mc_pthread_join`
  next t hpc =>
    rw [Option.ite_none_right_eq_some, Option.some.injEq] at h
    obtain ⟨-, rfl⟩ := h
    exact .move (quiet hpc ⟨rfl, rfl, rfl, rfl, nofun⟩)
  next t hpc =>
    obtain rfl := Option.some.inj h
    exact .quiet (quiet hpc ⟨rfl, rfl, rfl, rfl, nofun⟩)
  next t hpc =>
    obtain rfl := Option.some.inj h
    exact .retry (quiet hpc ⟨rfl, rfl, rfl, rfl, nofun⟩)
      (quiet hpc ⟨rfl, rfl, rfl, rfl, nofun⟩)
  -- the thread checks in
  next left hpc =>
    obtain rfl := Option.some.inj h
    exact .park hpc
  all_goals cases h

theorem move_of_timeOut (h : s.timeOut p = some s') :
    ∃ pc', (s.pc p).Quiet pc' ∧ s' = s.goTo p pc' := by
  unfold State.timeOut at h
  split at h
  next mutex hpc => exact ⟨_, hpc ▸ ⟨rfl, rfl, rfl, rfl, nofun⟩, (Option.some.inj h).symm⟩
  next cond mutex hpc => exact ⟨_, hpc ▸ ⟨rfl, rfl, rfl, rfl, nofun⟩, (Option.some.inj h).symm⟩
  next sem hpc => exact ⟨_, hpc ▸ ⟨rfl, rfl, rfl, rfl, nofun⟩, (Option.some.inj h).symm⟩
  next t hpc => exact ⟨_, hpc ▸ ⟨rfl, rfl, rfl, rfl, nofun⟩, (Option.some.inj h).symm⟩
  next => cases h

theorem move_of_fail (h : s.fail p = some s') :
    ∃ pc', (s.pc p).Quiet pc' ∧ s' = s.goTo p pc' := by
  unfold State.fail at h
  split at h
  next mutex hpc => exact ⟨_, hpc ▸ ⟨rfl, rfl, rfl, rfl, nofun⟩, (Option.some.inj h).symm⟩
  next mutex hpc => exact ⟨_, hpc ▸ ⟨rfl, rfl, rfl, rfl, nofun⟩, (Option.some.inj h).symm⟩
  next cond hpc => exact ⟨_, hpc ▸ ⟨rfl, rfl, rfl, rfl, nofun⟩, (Option.some.inj h).symm⟩
  next cond hpc => exact ⟨_, hpc ▸ ⟨rfl, rfl, rfl, rfl, nofun⟩, (Option.some.inj h).symm⟩
  next sem hpc => exact ⟨_, hpc ▸ ⟨rfl, rfl, rfl, rfl, nofun⟩, (Option.some.inj h).symm⟩
  next sem hpc => exact ⟨_, hpc ▸ ⟨rfl, rfl, rfl, rfl, nofun⟩, (Option.some.inj h).symm⟩
  next t hpc => exact ⟨_, hpc ▸ ⟨rfl, rfl, rfl, rfl, nofun⟩, (Option.some.inj h).symm⟩
  next cond mutex hpc => exact ⟨_, hpc ▸ ⟨rfl, rfl, rfl, rfl, nofun⟩, (Option.some.inj h).symm⟩
  next cond mutex hpc => exact ⟨_, hpc ▸ ⟨rfl, rfl, rfl, rfl, nofun⟩, (Option.some.inj h).symm⟩
  next => cases h

/-- A step restarts the process, has an effect of the thread which proceeds, or only moves a
thread. -/
theorem step_cases {a : Action} (h : step a s = some s') :
    (a = .restart ∧ s' = { s with restarting := true }) ∨
      (∃ p, a = .proceed p ∧ Effect p s s') ∨
        ∃ p pc', (∀ q, a ≠ .proceed q) ∧ (s.pc p).Quiet pc' ∧ s' = s.goTo p pc' := by
  cases a with
  | call p op =>
    rw [step, Option.ite_none_right_eq_some, Option.some.injEq] at h
    obtain ⟨⟨-, hpc⟩, rfl⟩ := h
    refine .inr (.inr ⟨p, _, fun _ => nofun, hpc ▸ ?_, rfl⟩)
    by_cases hrestarting : s.restarting = true
    · rw [if_pos hrestarting]
      exact ⟨rfl, rfl, rfl, rfl, nofun⟩
    · rw [if_neg hrestarting]
      exact ⟨rfl, rfl, rfl, rfl, nofun⟩
  | proceed p => exact .inr (.inl ⟨p, rfl, effect_of_proceed h⟩)
  | timeOut p =>
    obtain ⟨pc', hquiet, rfl⟩ := move_of_timeOut h
    exact .inr (.inr ⟨p, pc', fun _ => nofun, hquiet, rfl⟩)
  | fail p =>
    obtain ⟨pc', hquiet, rfl⟩ := move_of_fail h
    exact .inr (.inr ⟨p, pc', fun _ => nofun, hquiet, rfl⟩)
  | restart => exact .inl ⟨rfl, (Option.some.inj h).symm⟩

/-! ### Threads which take no step -/

/-- A thread which moves to a place which means the same in some respect. -/
theorem role_goTo {α : Type} (f : Role → α) {t : State} {pc' : Pc} (hpc : t.pc = s.pc)
    (hrole : f pc'.role = f (s.pc p).role) (q : RunnerId) :
    f ((t.goTo p pc').pc q).role = f (s.pc q).role := by
  rw [State.goTo_pc, hpc]
  by_cases hq : q = p
  · rw [if_pos hq, hrole, hq]
  · rw [if_neg hq]

section Frame

variable {q : RunnerId} {a : Action}

theorem Effect.pc_of_ne (h : Effect p s s') (hq : q ≠ p) : s'.pc q = s.pc q := by
  cases h <;> exact Function.update_of_ne hq ..

theorem pc_of_step (h : step a s = some s') (hq : a.actor ≠ some q) : s'.pc q = s.pc q := by
  have hne : ∀ {p : RunnerId}, a.actor = some p → q ≠ p := fun hp heq => hq (heq ▸ hp)
  cases a with
  | call p op =>
    rw [step, Option.ite_none_right_eq_some, Option.some.injEq] at h
    obtain ⟨-, rfl⟩ := h
    exact Function.update_of_ne (hne rfl) ..
  | proceed p => exact (effect_of_proceed h).pc_of_ne (hne rfl)
  | timeOut p =>
    obtain ⟨pc', -, rfl⟩ := move_of_timeOut h
    exact Function.update_of_ne (hne rfl) ..
  | fail p =>
    obtain ⟨pc', -, rfl⟩ := move_of_fail h
    exact Function.update_of_ne (hne rfl) ..
  | restart =>
    obtain rfl := Option.some.inj h
    rfl

theorem pc_of_run {actions : List Action} (h : Foundation.runFrom step s actions = some s')
    (hq : ∀ a ∈ actions, a.actor ≠ some q) : s'.pc q = s.pc q := by
  induction actions generalizing s with
  | nil =>
    obtain rfl := Option.some.inj h
    rfl
  | cons a actions ih =>
    obtain ⟨t, hstep, hrest⟩ := Foundation.runFrom_cons_eq_some.mp h
    obtain ⟨ha, hactions⟩ := List.forall_mem_cons.mp hq
    rw [ih hrest hactions, pc_of_step hstep ha]

/-- A run of two threads, which are quiescent in the end. -/
theorem quiescent_of_twoThreads {actions : List Action}
    (h : Foundation.runFrom step twoThreads actions = some s')
    (hactors : ∀ a ∈ actions, a.actor = some 0 ∨ a.actor = some 1)
    (hzero : (s'.pc 0).isQuiescent = true) (hone : (s'.pc 1).isQuiescent = true) :
    s'.Quiescent := by
  intro q
  by_cases h0 : q = 0
  · rwa [h0]
  by_cases h1 : q = 1
  · rwa [h1]
  have hout : s'.pc q = .outside := by
    refine pc_of_run h fun a ha hq => ?_
    rcases hactors a ha with h | h
    · exact h0 (Option.some.inj (hq.symm.trans h))
    · exact h1 (Option.some.inj (hq.symm.trans h))
  rw [hout]
  rfl

end Frame

end McMini.Record
