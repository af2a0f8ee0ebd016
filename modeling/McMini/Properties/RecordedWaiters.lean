import McMini.Record.Effects

/-!
# Recorded waiters

The record of a condition variable has a queue of the threads which are waiting on it. A thread
enters the queue before it waits; whether it leaves the queue when its wait is over depends on
how the queue says it was woken. But a signal is noted only for threads which are marked as
waiting, and a thread is marked so when its wait is over. So the first wait which returns leaves
its thread in the queue, and from then on the queue is wrong
(`recordsWaiters_iff`).
-/

namespace McMini.Record

open Foundation

variable {s s' : State} {p : RunnerId} {cond : Addr} {r : ConditionVariableRecord}

/-- The queue of the record is right: it consists of the threads inside `mc_pthread_cond_wait`,
each once and in the order of their arrival, and the count is its length. -/
structure RecordsWaiters (s : State) (cond : Addr) (r : ConditionVariableRecord) : Prop where
  mem_iff : ∀ p, p ∈ r.waitingThreads.threads ↔ (s.pc p).role.waitsOn = some cond
  once : r.waitingThreads.threads.Nodup
  order : r.waitingThreads.threads = s.waiters cond
  count : r.count = r.waitingThreads.length

/-- A call of `mc_pthread_cond_wait` is about to return. -/
def Finishes (cond : Addr) (a : Action) (s : State) : Prop :=
  ∃ p mutex rc, a = .proceed p ∧ s.pc p = .returned cond mutex rc ∧ rc ≠ .timedOut

/-! ### What is kept -/

namespace State

/-- The queue of a condition variable, which is empty while there is no record. -/
def queue (s : State) (cond : Addr) : ThreadQueue :=
  (s.conditionVariableRecords cond).elim [] (·.waitingThreads)

def waitingCount (s : State) (cond : Addr) : ℤ :=
  (s.conditionVariableRecords cond).elim 0 (·.count)

theorem conditionVariableRecord_queue {mutex : Addr} :
    (s.conditionVariableRecord p cond mutex).waitingThreads = s.queue cond := by
  unfold conditionVariableRecord queue
  cases s.conditionVariableRecords cond <;> rfl

theorem conditionVariableRecord_count {mutex : Addr} :
    (s.conditionVariableRecord p cond mutex).count = s.waitingCount cond := by
  unfold conditionVariableRecord waitingCount
  cases s.conditionVariableRecords cond <;> rfl

end State

/-- A thread in the queue is not waiting, or one has entered while it was in the queue. -/
def Strayed (s : State) (cond : Addr) : Prop :=
  (∃ p ∈ (s.queue cond).threads, p ∉ s.waiters cond) ∨
    ((s.queue cond).length : ℤ) < s.waitingCount cond

/-- What holds of the queue, before and after a wait has returned. -/
structure Tracked (s : State) (cond : Addr) (finished : Prop) : Prop where
  mem_iff : ∀ p, p ∈ s.waiters cond ↔ (s.pc p).role.waitsOn = some cond
  nodup : (s.waiters cond).Nodup
  queued : ∀ p ∈ s.waiters cond, p ∈ (s.queue cond).threads
  length_le : ((s.queue cond).length : ℤ) ≤ s.waitingCount cond
  fresh : ¬ finished → s.queue cond = (s.waiters cond).map (⟨·, .prewaiting⟩) ∧
    s.waitingCount cond = (s.waiters cond).length
  strayed : finished → Strayed s cond

variable {finished : Prop}

/-- Steps which concern other objects. -/
theorem Tracked.congr (h : Tracked s cond finished)
    (hrecord : s'.conditionVariableRecords cond = s.conditionVariableRecords cond)
    (hwaiters : s'.waiters cond = s.waiters cond)
    (hrole : ∀ q, (s'.pc q).role.waitsOn = some cond ↔ (s.pc q).role.waitsOn = some cond) :
    Tracked s' cond finished := by
  have hqueue : s'.queue cond = s.queue cond := by rw [State.queue, hrecord]; rfl
  have hcount : s'.waitingCount cond = s.waitingCount cond := by
    rw [State.waitingCount, hrecord]; rfl
  refine ⟨fun q => ?_, ?_, ?_, ?_, ?_, ?_⟩
  · rw [hwaiters, hrole]
    exact h.mem_iff q
  · rw [hwaiters]
    exact h.nodup
  · rw [hwaiters, hqueue]
    exact h.queued
  · rw [hqueue, hcount]
    exact h.length_le
  · rw [hqueue, hwaiters, hcount]
    exact h.fresh
  · unfold Strayed
    rw [hqueue, hwaiters, hcount]
    exact h.strayed

/-- A thread which moves keeps its role. -/
theorem goTo_role {pc' : Pc} {t : State} (hpc : t.pc = s.pc)
    (hrole : pc'.role.waitsOn = (s.pc p).role.waitsOn) (q : RunnerId) :
    ((t.goTo p pc').pc q).role.waitsOn = some cond ↔ (s.pc q).role.waitsOn = some cond := by
  rw [role_goTo Role.waitsOn hpc hrole]

section Steps

variable {t : State} {pc' : Pc}

/-- The thread has just become one of those inside the wait. -/
theorem mem_iff_of_arrival (h : ∀ q, q ∈ s.waiters cond ↔ (s.pc q).role.waitsOn = some cond)
    (hpc : t.pc = s.pc) (hwaiters : t.waiters cond = s.waiters cond ++ [p])
    (hrole : pc'.role.waitsOn = some cond) (q : RunnerId) :
    q ∈ (t.goTo p pc').waiters cond ↔ ((t.goTo p pc').pc q).role.waitsOn = some cond := by
  show q ∈ t.waiters cond ↔ (Function.update t.pc p pc' q).role.waitsOn = some cond
  rw [hwaiters, List.mem_append, List.mem_singleton]
  by_cases hq : q = p
  · subst hq
    rw [Function.update_self, hrole]
    exact ⟨fun _ => rfl, fun _ => .inr rfl⟩
  · rw [Function.update_of_ne hq, hpc, ← h q]
    exact or_iff_left hq

/-- The thread has just left the wait. -/
theorem mem_iff_of_departure (h : ∀ q, q ∈ s.waiters cond ↔ (s.pc q).role.waitsOn = some cond)
    (hnodup : (s.waiters cond).Nodup) (hpc : t.pc = s.pc)
    (hwaiters : t.waiters cond = (s.waiters cond).erase p)
    (hrole : pc'.role.waitsOn = none) (q : RunnerId) :
    q ∈ (t.goTo p pc').waiters cond ↔ ((t.goTo p pc').pc q).role.waitsOn = some cond := by
  show q ∈ t.waiters cond ↔ (Function.update t.pc p pc' q).role.waitsOn = some cond
  rw [hwaiters, hnodup.mem_erase_iff]
  by_cases hq : q = p
  · subst hq
    rw [Function.update_self, hrole]
    exact ⟨fun hmem => absurd rfl hmem.1, fun hsome => nomatch hsome⟩
  · rw [Function.update_of_ne hq, hpc, ← h q]
    exact and_iff_right hq

/-- A thread enters the wait. If it is in the queue already, it is only counted. -/
theorem Tracked.enterWait (h : Tracked s cond finished) {mutex : Addr}
    (hpc : s.pc p = .entered (.condWait cond mutex)) :
    Tracked (((s.setConditionVariableRecord cond
      ((s.conditionVariableRecord p cond mutex).enterWait p mutex)).setWaiters cond
        (s.waiters cond ++ [p])).goTo p (.wait cond mutex)) cond finished := by
  have hnew : p ∉ s.waiters cond := by
    rw [h.mem_iff, hpc]
    nofun
  set s' := ((s.setConditionVariableRecord cond
      ((s.conditionVariableRecord p cond mutex).enterWait p mutex)).setWaiters cond
        (s.waiters cond ++ [p])).goTo p (.wait cond mutex)
  have hwaiters : s'.waiters cond = s.waiters cond ++ [p] := Function.update_self ..
  have hrecord : s'.conditionVariableRecords cond =
      some ((s.conditionVariableRecord p cond mutex).enterWait p mutex) := Function.update_self ..
  have hcount : s'.waitingCount cond = s.waitingCount cond + 1 := by
    rw [State.waitingCount, hrecord, ← State.conditionVariableRecord_count (p := p)]
    rfl
  have hqueue : s'.queue cond = if p ∈ (s.queue cond).threads then s.queue cond
      else s.queue cond ++ [⟨p, .prewaiting⟩] := by
    rw [State.queue, hrecord, Option.elim_some, ConditionVariableRecord.enterWait_waitingThreads,
      State.conditionVariableRecord_queue]
  have hmem_iff : ∀ q, q ∈ s'.waiters cond ↔ (s'.pc q).role.waitsOn = some cond :=
    mem_iff_of_arrival h.mem_iff rfl (Function.update_self ..) rfl
  have hnodup : (s'.waiters cond).Nodup := by
    rw [hwaiters]
    exact List.nodup_append.mpr ⟨h.nodup, List.nodup_singleton p,
      fun q hq t ht hqt => hnew (List.mem_singleton.mp ht ▸ hqt ▸ hq)⟩
  have hle := h.length_le
  -- a thread may be in the queue from an earlier wait
  by_cases hold : p ∈ (s.queue cond).threads
  · rw [if_pos hold] at hqueue
    refine ⟨hmem_iff, hnodup, fun q hq => ?_, ?_, fun hfresh => ?_, fun _ => .inr ?_⟩
    · rw [hwaiters, List.mem_append, List.mem_singleton] at hq
      rw [hqueue]
      rcases hq with hq | rfl
      · exact h.queued q hq
      · exact hold
    · rw [hqueue, hcount]
      omega
    · -- before a wait has returned, only threads inside are in the queue
      obtain ⟨node, hnode, hthread⟩ := ThreadQueue.mem_threads.mp hold
      rw [(h.fresh hfresh).1] at hnode
      obtain ⟨q, hq, rfl⟩ := List.mem_map.mp hnode
      exact absurd (hthread ▸ hq) hnew
    · rw [hqueue, hcount]
      omega
  · rw [if_neg hold] at hqueue
    have hlength : (s'.queue cond).length = (s.queue cond).length + 1 := by
      rw [hqueue, List.length_append, List.length_singleton]
    have hthreads : (s'.queue cond).threads = (s.queue cond).threads ++ [p] := by
      rw [hqueue, ThreadQueue.threads, List.map_append]
      rfl
    refine ⟨hmem_iff, hnodup, fun q hq => ?_, ?_, fun hfresh => ?_, fun hfinished => ?_⟩
    · rw [hwaiters, List.mem_append] at hq
      rw [hthreads, List.mem_append]
      exact hq.imp_left (h.queued q)
    · rw [hlength, hcount]
      omega
    · obtain ⟨hsame, hlen⟩ := h.fresh hfresh
      rw [hqueue, hwaiters, hcount, hsame, hlen, List.map_append, List.length_append]
      exact ⟨rfl, rfl⟩
    -- who has strayed before is neither the thread nor inside
    · rcases h.strayed hfinished with ⟨q, hq, hout⟩ | hlt
      · refine .inl ⟨q, ?_, ?_⟩
        · rw [hthreads]
          exact List.mem_append_left _ hq
        · rw [hwaiters, List.mem_append, List.mem_singleton, not_or]
          exact ⟨hout, fun hqp => hold (hqp ▸ hq)⟩
      · refine .inr ?_
        rw [hlength, hcount]
        omega

/-- A wait returns, and its thread is left in the queue, unless it is marked as signaled. -/
theorem Tracked.leaveWait (h : Tracked s cond finished) {mutex : Addr} {r' : ConditionVariableRecord}
    (hpc : s.pc p = .returned cond mutex .ok) (hr : s.conditionVariableRecords cond = some r)
    (hr' : r.leaveWait p = some r') :
    Tracked (((s.setConditionVariableRecord cond r').setWaiters cond
      ((s.waiters cond).erase p)).goTo p .outside) cond True := by
  have hinside : p ∈ s.waiters cond := by
    rw [h.mem_iff, hpc]
    rfl
  set s' := ((s.setConditionVariableRecord cond r').setWaiters cond
      ((s.waiters cond).erase p)).goTo p .outside
  have hwaiters : s'.waiters cond = (s.waiters cond).erase p := Function.update_self ..
  have hrecord : s'.conditionVariableRecords cond = some r' := Function.update_self ..
  have hqueue' : s'.queue cond = r'.waitingThreads := by rw [State.queue, hrecord]; rfl
  have hcount' : s'.waitingCount cond = r'.count := by rw [State.waitingCount, hrecord]; rfl
  have hqueue : s.queue cond = r.waitingThreads := by rw [State.queue, hr]; rfl
  have hcount : s.waitingCount cond = r.count := by rw [State.waitingCount, hr]; rfl
  have hle := h.length_le
  have hmem_iff : ∀ q, q ∈ s'.waiters cond ↔ (s'.pc q).role.waitsOn = some cond :=
    mem_iff_of_departure h.mem_iff h.nodup rfl (Function.update_self ..) rfl
  have hnodup : (s'.waiters cond).Nodup := by
    rw [hwaiters]
    exact h.nodup.erase p
  have hout : p ∉ s'.waiters cond := by
    rw [hwaiters]
    exact h.nodup.not_mem_erase
  have hlengths : ∀ q : ThreadQueue, q.length = q.threads.length := fun q => List.length_map _ |>.symm
  rcases ConditionVariableRecord.leaveWait_cases hr' with
    ⟨hsignaled, hthreads, hc⟩ | ⟨hthreads, hc⟩
  · -- the thread was signaled, so this is not the first wait which returns
    have hfinished : finished := by
      by_contra hfresh
      rw [← hqueue, (h.fresh hfresh).1] at hsignaled
      obtain ⟨q, -, hnode⟩ := List.mem_map.mp hsignaled
      cases hnode
    -- the thread leaves the queue, and is not counted any more
    have hqueued : p ∈ r.waitingThreads.threads := hqueue ▸ h.queued p hinside
    have hlength : (s'.queue cond).length = (s.queue cond).length - 1 := by
      rw [hlengths, hqueue', hthreads, List.length_erase_of_mem hqueued, hqueue, hlengths]
    have hpos : 0 < (s.queue cond).length := by
      rw [hlengths, hqueue]
      exact List.length_pos_of_mem hqueued
    refine ⟨hmem_iff, hnodup, fun q hq => ?_, ?_, fun hfalse => absurd trivial hfalse, fun _ => ?_⟩
    · have hne : q ≠ p := fun heq => hout (heq ▸ hq)
      rw [hqueue', hthreads, List.mem_erase_of_ne hne, ← hqueue]
      exact h.queued q (List.mem_of_mem_erase (hwaiters ▸ hq))
    · rw [hlength, hcount', hc, ← hcount]
      omega
    · rcases h.strayed hfinished with ⟨q, hq, hq_out⟩ | hlt
      · refine .inl ⟨q, ?_, ?_⟩
        · have hne : q ≠ p := fun heq => hq_out (heq ▸ hinside)
          rw [hqueue', hthreads, List.mem_erase_of_ne hne, ← hqueue]
          exact hq
        · rw [hwaiters]
          exact fun hmem => hq_out (List.mem_of_mem_erase hmem)
      · refine .inr ?_
        rw [hlength, hcount', hc, ← hcount]
        omega
  -- the thread is marked as waiting, and stays in the queue without being inside
  · have hsame : (s'.queue cond).threads = (s.queue cond).threads := by
      rw [hqueue', hthreads, hqueue]
    refine ⟨hmem_iff, hnodup, fun q hq => ?_, ?_, fun hfalse => absurd trivial hfalse, fun _ => ?_⟩
    · rw [hsame]
      exact h.queued q (List.mem_of_mem_erase (hwaiters ▸ hq))
    · rw [hlengths, hsame, ← hlengths, hcount', hc, ← hcount]
      exact hle
    · exact .inl ⟨p, hsame ▸ h.queued p hinside, hout⟩

/-- A wait fails, and its thread is left in the queue. -/
theorem Tracked.failWait (h : Tracked s cond finished) {mutex : Addr}
    (hpc : s.pc p = .returned cond mutex .error) :
    Tracked ((s.setWaiters cond ((s.waiters cond).erase p)).goTo p .outside) cond True := by
  have hinside : p ∈ s.waiters cond := by
    rw [h.mem_iff, hpc]
    rfl
  set s' := (s.setWaiters cond ((s.waiters cond).erase p)).goTo p .outside
  have hwaiters : s'.waiters cond = (s.waiters cond).erase p := Function.update_self ..
  have hout : p ∉ s'.waiters cond := by
    rw [hwaiters]
    exact h.nodup.not_mem_erase
  refine ⟨mem_iff_of_departure h.mem_iff h.nodup rfl (Function.update_self ..) rfl, ?_,
    fun q hq => h.queued q (List.mem_of_mem_erase (hwaiters ▸ hq)), h.length_le,
    fun hfalse => absurd trivial hfalse, fun _ => .inl ⟨p, h.queued p hinside, hout⟩⟩
  rw [hwaiters]
  exact h.nodup.erase p

/-- A signal or a broadcast is noted. -/
theorem Tracked.signal (h : Tracked s cond finished) {r' : ConditionVariableRecord}
    (hquiet : (s.pc p).Quiet pc')
    (hthreads : r'.waitingThreads.threads =
      (s.conditionVariableRecord p cond 0).waitingThreads.threads)
    (hcount : r'.count = (s.conditionVariableRecord p cond 0).count)
    (hsame : (∀ node ∈ (s.conditionVariableRecord p cond 0).waitingThreads,
      node.threadCvState ≠ .waiting) →
        r'.waitingThreads = (s.conditionVariableRecord p cond 0).waitingThreads) :
    Tracked ((s.setConditionVariableRecord cond r').goTo p pc') cond finished := by
  set s' := (s.setConditionVariableRecord cond r').goTo p pc'
  rw [State.conditionVariableRecord_queue] at hthreads hsame
  rw [State.conditionVariableRecord_count] at hcount
  have hrecord : s'.conditionVariableRecords cond = some r' := Function.update_self ..
  have hqueue' : s'.queue cond = r'.waitingThreads := by rw [State.queue, hrecord]; rfl
  have hcount' : s'.waitingCount cond = s.waitingCount cond := by
    rw [State.waitingCount, hrecord, ← hcount]; rfl
  have hthreads' : (s'.queue cond).threads = (s.queue cond).threads := by rw [hqueue', hthreads]
  have hlength : (s'.queue cond).length = (s.queue cond).length := by
    have hlen := congrArg List.length hthreads'
    rwa [ThreadQueue.threads, ThreadQueue.threads, List.length_map, List.length_map] at hlen
  refine ⟨fun q => ?_, h.nodup, fun q hq => ?_, ?_, fun hfresh => ?_, fun hfinished => ?_⟩
  · have hrole : (s'.pc q).role.waitsOn = some cond ↔ (s.pc q).role.waitsOn = some cond :=
      goTo_role rfl (congrArg Role.waitsOn hquiet.role_eq) q
    exact (h.mem_iff q).trans hrole.symm
  · rw [hthreads']
    exact h.queued q hq
  · rw [hlength, hcount']
    exact h.length_le
  · obtain ⟨hmarks, hlen⟩ := h.fresh hfresh
    have hnone : ∀ node ∈ s.queue cond, node.threadCvState ≠ .waiting := by
      intro node hnode
      rw [hmarks] at hnode
      obtain ⟨q, -, rfl⟩ := List.mem_map.mp hnode
      simp
    rw [hqueue', hsame hnone, hcount']
    exact ⟨hmarks, hlen⟩
  · unfold Strayed
    rw [hthreads', hlength, hcount']
    exact h.strayed hfinished

end Steps

/-- A thread which moves between the roles of another condition variable. -/
theorem goTo_role_of_ne {pc' : Pc} {t : State} (hpc : t.pc = s.pc)
    (hold : (s.pc p).role.waitsOn ≠ some cond) (hnew : pc'.role.waitsOn ≠ some cond)
    (q : RunnerId) :
    ((t.goTo p pc').pc q).role.waitsOn = some cond ↔ (s.pc q).role.waitsOn = some cond := by
  show (Function.update t.pc p pc' q).role.waitsOn = some cond ↔ _
  by_cases hq : q = p
  · subst hq
    rw [Function.update_self]
    exact iff_of_false hnew hold
  · rw [Function.update_of_ne hq, hpc]

/-- Whatever a thread does, the queue stays as it was, or becomes wrong when a wait returns. -/
theorem Tracked.effect (h : Tracked s cond finished) (heffect : Effect p s s') :
    Tracked s' cond (finished ∨ Finishes cond (.proceed p) s) := by
  -- only a wait which returns makes the queue wrong
  have keep : (∀ mutex rc, s.pc p = .returned cond mutex rc → rc = .timedOut) →
      Tracked s' cond finished → Tracked s' cond (finished ∨ Finishes cond (.proceed p) s) := by
    intro htimedOut h'
    have hnot : ¬ Finishes cond (.proceed p) s := by
      rintro ⟨q, mutex, rc, hq, hpc, hrc⟩
      obtain rfl := Action.proceed.inj hq
      exact hrc (htimedOut mutex rc hpc)
    rwa [or_iff_left hnot]
  have finish : ∀ {mutex rc}, s.pc p = .returned cond mutex rc → rc ≠ .timedOut →
      Tracked s' cond True → Tracked s' cond (finished ∨ Finishes cond (.proceed p) s) := by
    intro mutex rc hpc hrc h'
    have hfinishes : Finishes cond (.proceed p) s := ⟨p, mutex, rc, rfl, hpc, hrc⟩
    rwa [eq_true (Or.inr hfinishes)]
  cases heffect with
  | quiet hquiet =>
    refine keep (hquiet.timedOut cond) (h.congr rfl rfl ?_)
    exact goTo_role (t := { s with semaphoreRecords := _, semaphores := _, threadRecords := _ }) rfl
      (congrArg Role.waitsOn hquiet.role_eq)
  | @park left hpc =>
    refine keep (by rw [hpc]; nofun) (h.congr rfl rfl (goTo_role rfl ?_))
    rw [hpc]
    rcases left with _ | (_ | _ | _ | _ | _ | _ | _ | _ | _) <;> rfl
  | recordMutex hpc | lock hpc _ | recordLocked hpc | unlock hpc _ | recordUnlocked hpc
  | release hpc _ | reacquire hpc _ =>
    refine keep (by rw [hpc]; nofun) (h.congr rfl rfl (goTo_role rfl ?_))
    rw [hpc]
    rfl
  | @enterWait d mutex hpc =>
    refine keep (by rw [hpc]; nofun) ?_
    by_cases hd : d = cond
    · subst hd
      exact h.enterWait hpc
    · refine h.congr (Function.update_of_ne (Ne.symm hd) ..) (Function.update_of_ne (Ne.symm hd) ..)
        (goTo_role_of_ne rfl ?_ fun hsome => hd (Option.some.inj hsome))
      rw [hpc]
      nofun
  | @leaveWait d mutex r r' hpc hr hr' =>
    by_cases hd : d = cond
    · subst hd
      exact finish hpc nofun (h.leaveWait hpc hr hr')
    -- a wait on another condition variable
    · have hother : (s.pc p).role.waitsOn ≠ some cond := by
        rw [hpc]
        exact fun hsome => hd (Option.some.inj hsome)
      refine keep (fun _ _ hpc' => absurd (hpc.symm.trans hpc') ?_)
        (h.congr (Function.update_of_ne (Ne.symm hd) ..) (Function.update_of_ne (Ne.symm hd) ..)
          (goTo_role_of_ne rfl hother nofun))
      exact fun heq => hd (Pc.returned.inj heq).1
  | @failWait d mutex hpc =>
    by_cases hd : d = cond
    · subst hd
      exact finish hpc nofun (h.failWait hpc)
    · have hother : (s.pc p).role.waitsOn ≠ some cond := by
        rw [hpc]
        exact fun hsome => hd (Option.some.inj hsome)
      refine keep (fun _ _ hpc' => absurd (hpc.symm.trans hpc') ?_)
        (h.congr rfl (Function.update_of_ne (Ne.symm hd) ..) (goTo_role_of_ne rfl hother nofun))
      exact fun heq => hd (Pc.returned.inj heq).1
  | @signal d pc' r hquiet hthreads hcount hsame =>
    refine keep (hquiet.timedOut cond) ?_
    by_cases hd : d = cond
    · subst hd
      exact h.signal hquiet hthreads hcount hsame
    · exact h.congr (Function.update_of_ne (Ne.symm hd) ..) rfl
        (goTo_role rfl (congrArg Role.waitsOn hquiet.role_eq))

/-- Each step keeps track of the queue. -/
theorem Tracked.step (h : Tracked s cond finished) {a : Action} (hstep : Record.step a s = some s') :
    Tracked s' cond (finished ∨ Finishes cond a s) := by
  rcases step_cases hstep with ⟨rfl, rfl⟩ | ⟨p, rfl, heffect⟩ | ⟨p, pc', hne, hquiet, rfl⟩
  · have hnot : ¬ Finishes cond .restart s := by
      rintro ⟨_, _, _, ha, -⟩
      cases ha
    rw [or_iff_left hnot]
    exact h.congr rfl rfl fun _ => Iff.rfl
  · exact h.effect heffect
  · have hnot : ¬ Finishes cond a s := fun ⟨q, _, _, ha, _⟩ => hne q ha
    rw [or_iff_left hnot]
    exact h.congr rfl rfl (goTo_role rfl (congrArg Role.waitsOn hquiet.role_eq))

theorem tracked_start (threads : RunnerId → Option ThreadStatus) (semaphores : Addr → ℕ)
    (cond : Addr) : Tracked (start threads semaphores) cond False := by
  refine ⟨fun p => iff_of_false List.not_mem_nil nofun, List.nodup_nil, fun p hp => ?_, le_rfl,
    fun _ => ⟨rfl, rfl⟩, False.elim⟩
  exact absurd hp List.not_mem_nil

/-! ### When the queue is right -/

theorem Tracked.waiting_iff_recorded (h : Tracked s cond finished)
    (hr : s.conditionVariableRecords cond = some r) : RecordsWaiters s cond r ↔ ¬ finished := by
  have hqueue : s.queue cond = r.waitingThreads := by rw [State.queue, hr]; rfl
  have hcount : s.waitingCount cond = r.count := by rw [State.waitingCount, hr]; rfl
  constructor
  · intro hrecords hfinished
    rcases h.strayed hfinished with ⟨p, hp, hout⟩ | hlt
    · rw [hqueue, hrecords.order] at hp
      exact hout hp
    · rw [hqueue, hcount, hrecords.count] at hlt
      exact lt_irrefl _ hlt
  · intro hfresh
    obtain ⟨hmarks, hlength⟩ := h.fresh hfresh
    have hthreads : r.waitingThreads.threads = s.waiters cond := by
      rw [← hqueue, hmarks, ThreadQueue.threads, List.map_map]
      exact List.map_id _
    refine ⟨fun p => ?_, ?_, hthreads, ?_⟩
    · rw [hthreads]
      exact h.mem_iff p
    · rw [hthreads]
      exact h.nodup
    · rw [← hcount, hlength, ← hthreads, ThreadQueue.threads, List.length_map]

/-- In every state of a run the queue of a recorded condition variable is right if and only if
no call of `mc_pthread_cond_wait` on it has returned so far. -/
theorem recordsWaiters_iff {threads : RunnerId → Option ThreadStatus} {semaphores : Addr → ℕ}
    {actions : List Action} (hrun : runFrom step (start threads semaphores) actions = some s)
    (hr : s.conditionVariableRecords cond = some r) :
    RecordsWaiters s cond r ↔
      ∀ pre a, pre ++ [a] <+: actions → ∀ t,
        runFrom step (start threads semaphores) pre = some t → ¬ Finishes cond a t := by
  have htracked : Tracked s cond (¬ ∀ pre a, pre ++ [a] <+: actions → ∀ t,
      runFrom step (start threads semaphores) pre = some t → ¬ Finishes cond a t) := by
    refine runFrom_induction (P := fun actions s => Tracked s cond (¬ ∀ pre a,
      pre ++ [a] <+: actions → ∀ t, runFrom step (start threads semaphores) pre = some t →
        ¬ Finishes cond a t)) ?_ ?_ hrun
    · have hnone : ∀ pre a, pre ++ [a] <+: ([] : List Action) → ∀ t,
          runFrom step (start threads semaphores) pre = some t → ¬ Finishes cond a t := by
        intro pre a hpre
        simp at hpre
      rw [eq_false (not_not.mpr hnone)]
      exact tracked_start threads semaphores cond
    · intro actions s a s' hs htracked hstep
      rw [forall_prefix_concat, not_and_or]
      have hlast : (¬ ∀ t, runFrom step (start threads semaphores) actions = some t →
          ¬ Finishes cond a t) ↔ Finishes cond a s := by
        rw [hs]
        simp
      rw [hlast]
      exact htracked.step hstep
  rw [htracked.waiting_iff_recorded hr, not_not]

/-- Thread `0` locks the mutex `8` and waits on the condition variable `9`. -/
private def waiting : List Action :=
  [.call 0 (.mutexLock 8), .proceed 0, .proceed 0, .proceed 0, .call 0 (.condWait 9 8), .proceed 0,
    .proceed 0]

/-- The queue is right while the thread is waiting. -/
theorem recordsWaiters_of_waiting :
    ∃ s r, runFrom step twoThreads waiting = some s ∧ s.conditionVariableRecords 9 = some r ∧
      (RecordsWaiters s 9 r ↔ ∀ pre a, pre ++ [a] <+: waiting → ∀ t,
        runFrom step twoThreads pre = some t → ¬ Finishes 9 a t) := by
  obtain ⟨s, hs⟩ := Option.isSome_iff_exists.mp
    (show (runFrom step twoThreads waiting).isSome = true by rfl)
  have hrecord : ((runFrom step twoThreads waiting).bind fun s =>
      s.conditionVariableRecords 9).isSome = true := by rfl
  rw [hs] at hrecord
  obtain ⟨r, hr⟩ := Option.isSome_iff_exists.mp hrecord
  exact ⟨s, r, hs, hr, recordsWaiters_iff hs hr⟩

/-- Thread `1` signals, and the wait returns. -/
private def woken : List Action :=
  waiting ++ [.call 1 (.condSignal 9), .proceed 1, .proceed 1, .proceed 1, .proceed 0, .proceed 0,
    .proceed 0]

/-- The thread which was woken is still in the queue. -/
theorem not_recordsWaiters_of_woken :
    ¬ ∀ (threads : RunnerId → Option ThreadStatus) (semaphores : Addr → ℕ)
      (actions : List Action) (s : State) (cond : Addr) (r : ConditionVariableRecord),
      runFrom step (start threads semaphores) actions = some s → s.restarting = false →
      s.Quiescent → s.conditionVariableRecords cond = some r → RecordsWaiters s cond r := by
  intro h
  obtain ⟨s, hs⟩ := Option.isSome_iff_exists.mp
    (show (runFrom step twoThreads woken).isSome = true by rfl)
  have hfinal : ((runFrom step twoThreads woken).bind fun s =>
      (s.conditionVariableRecords 9).map fun r =>
        (s.restarting, s.pc 0, s.pc 1, s.waiters 9, r.waitingThreads.threads)) =
      some (false, .outside, .outside, [], [0]) := by rfl
  rw [hs] at hfinal
  obtain ⟨r, hr, hvalues⟩ := Option.map_eq_some_iff.mp hfinal
  simp only [Prod.mk.injEq] at hvalues
  obtain ⟨hrecording, hzero, hone, hwaiters, hthreads⟩ := hvalues
  have hquiescent : s.Quiescent :=
    quiescent_of_twoThreads hs (by decide) (by rw [hzero]; rfl) (by rw [hone]; rfl)
  have hrecords := h _ _ _ s 9 r hs hrecording hquiescent hr
  rw [hrecords.order, hwaiters] at hthreads
  cases hthreads

end McMini.Record
