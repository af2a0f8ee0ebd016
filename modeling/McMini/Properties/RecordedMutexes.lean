import McMini.Record.Effects

/-!
# Recorded mutexes

The record of a mutex is changed after the mutex. A thread which blocks inside
`mc_pthread_cond_wait` gives the mutex up and leaves the record as it is, so that the mutex is
recorded as held by a thread which is going to wait. Otherwise the records are right whenever the
threads are quiescent (`recordsMutex_of_quiescent`), as far as mutexes are taken by
`mc_pthread_mutex_lock`, and no thread takes one between another one's giving it up and noting it.
-/

namespace McMini.Record

open Foundation

variable {s s' : State} {p q : RunnerId} {mutex : Addr} {r : MutexRecord}

/-- What the record of a mutex tells. -/
structure RecordsMutex (s : State) (mutex : Addr) (r : MutexRecord) : Prop where
  /-- The owner holds the mutex, or is waiting with it. -/
  locked : r.status = .locked → s.Holds r.owner mutex ∨ s.BlockedWith r.owner mutex
  /-- A thread which has locked the mutex is the owner. -/
  held : ∀ p, s.holder mutex = some ⟨p, false⟩ → r = ⟨.locked, p⟩
  /-- A mutex which nobody holds or is waiting with is not locked. -/
  free : (∀ p, ¬ s.Holds p mutex) → (∀ p, ¬ s.BlockedWith p mutex) → r.status ≠ .locked

/-- A call of `mc_pthread_mutex_lock` takes the mutex while a thread which has given it up has
not noted it. -/
def Overtakes (mutex : Addr) (a : Action) (s : State) : Prop :=
  ∃ p q, a = .proceed p ∧ s.pc p = .lock mutex ∧ s.pc q = .unlocked mutex

/-! ### What is kept -/

structure Mirrors (s : State) (mutex : Addr) : Prop where
  taken : ∀ p, (s.pc p).role.recordsLock = some mutex → s.holder mutex = some ⟨p, false⟩
  locked : ∀ r, s.mutexRecords mutex = some r → r.status = .locked →
    s.Holds r.owner mutex ∨ s.BlockedWith r.owner mutex ∨
      (s.pc r.owner).role.recordsUnlock = some mutex
  held : ∀ p, s.holder mutex = some ⟨p, false⟩ →
    (s.pc p).role.recordsLock = some mutex ∨ s.mutexRecords mutex = some ⟨.locked, p⟩
  noted : ∀ p q, s.holder mutex = some ⟨p, false⟩ → (s.pc q).role.recordsUnlock ≠ some mutex

theorem recordsUnlock_eq_some {pc : Pc} :
    pc.role.recordsUnlock = some mutex ↔ pc = .unlocked mutex := by
  constructor
  · intro h
    cases pc with
    | unlocked m => exact congrArg Pc.unlocked (Option.some.inj h)
    | checkIn left => rcases left with _ | (_ | _ | _ | _ | _ | _ | _ | _ | _) <;> cases h
    | parked left => rcases left with _ | (_ | _ | _ | _ | _ | _ | _ | _ | _) <;> cases h
    | _ => cases h
  · rintro rfl
    rfl

/-- A step which leaves the mutex and its record alone. -/
theorem Mirrors.congr (h : Mirrors s mutex) (hholder : s'.holder mutex = s.holder mutex)
    (hrecord : s'.mutexRecords mutex = s.mutexRecords mutex)
    (hlock : ∀ q, (s'.pc q).role.recordsLock = some mutex ↔ (s.pc q).role.recordsLock = some mutex)
    (hunlock : ∀ q,
      (s'.pc q).role.recordsUnlock = some mutex ↔ (s.pc q).role.recordsUnlock = some mutex)
    (hwaits : ∀ q, (s'.pc q).role.waitsWith = some mutex ↔ (s.pc q).role.waitsWith = some mutex) :
    Mirrors s' mutex := by
  refine ⟨fun p hp => ?_, fun r hr hlocked => ?_, fun p hp => ?_, fun p q hp => ?_⟩
  · rw [hholder]
    exact h.taken p ((hlock p).mp hp)
  · unfold State.Holds State.BlockedWith
    rw [hholder, hwaits, hunlock]
    exact h.locked r (hrecord ▸ hr) hlocked
  · rw [hlock, hrecord]
    exact h.held p (hholder ▸ hp)
  · rw [Ne, hunlock]
    exact h.noted p q (hholder ▸ hp)

/-- A step which moves a thread between places which are the same to the mutex. -/
theorem Mirrors.move (h : Mirrors s mutex) {t : State} {pc' : Pc} (hpc : t.pc = s.pc)
    (hholder : t.holder mutex = s.holder mutex)
    (hrecord : t.mutexRecords mutex = s.mutexRecords mutex)
    (hlock : pc'.role.recordsLock = (s.pc p).role.recordsLock)
    (hunlock : pc'.role.recordsUnlock = (s.pc p).role.recordsUnlock)
    (hwaits : pc'.role.waitsWith = (s.pc p).role.waitsWith) :
    Mirrors (t.goTo p pc') mutex := by
  refine h.congr hholder hrecord (fun q => ?_) (fun q => ?_) fun q => ?_
  · rw [role_goTo Role.recordsLock hpc hlock]
  · rw [role_goTo Role.recordsUnlock hpc hunlock]
  · rw [role_goTo Role.waitsWith hpc hwaits]

section Steps

variable {m : Addr} {reacquired : Bool}

/-- A record is added if there is none. -/
theorem Mirrors.recordMutex (h : Mirrors s mutex) (hpc : s.pc p = .entered (.mutexLock m)) :
    Mirrors ((s.setMutexRecord m (s.mutexRecord m)).goTo p (.lock m)) mutex := by
  have hrole : (s.pc p).role = {} := by rw [hpc]; rfl
  have hrole' : (Pc.lock m).role = {} := rfl
  by_cases hm : m = mutex
  · subst hm
    cases hrecord : s.mutexRecords m with
    | some r =>
      have hsame : (s.setMutexRecord m (s.mutexRecord m)).mutexRecords m = s.mutexRecords m := by
        rw [State.setMutexRecord_mutexRecords, if_pos rfl, State.mutexRecord, hrecord,
          Option.getD_some]
      exact h.move rfl rfl hsame (by rw [hrole, hrole']) (by rw [hrole, hrole'])
        (by rw [hrole, hrole'])
    | none =>
      have hnew : s.mutexRecord m = ⟨.uninitialized, ridInvalid⟩ := by
        rw [State.mutexRecord, hrecord, Option.getD_none]
      obtain ⟨htaken, hlocked, hheld, hunnoted⟩ := h
      refine ⟨fun q hq => ?_, fun r hr hstatus => ?_, fun q hq => ?_, fun q q' hq => ?_⟩ <;> grind
  · exact h.move rfl rfl (Function.update_of_ne (Ne.symm hm) ..) (by rw [hrole, hrole'])
      (by rw [hrole, hrole']) (by rw [hrole, hrole'])

/-- A free mutex is taken, by `mc_pthread_mutex_lock` or at the end of a wait. -/
theorem Mirrors.take (h : Mirrors s mutex) {pc' : Pc} (hfree : s.holder m = none)
    (hnoted : reacquired = false → m = mutex → ∀ q, (s.pc q).role.recordsUnlock ≠ some mutex)
    (hlock : (s.pc p).role.recordsLock = none) (hunlock : (s.pc p).role.recordsUnlock = none)
    (hunlock' : pc'.role.recordsUnlock = none)
    (htakes : reacquired = false ∧ (s.pc p).role.waitsWith = none ∧
        pc'.role.recordsLock = some m ∨
      reacquired = true ∧ (s.pc p).role.waitsWith = some m ∧ pc'.role.recordsLock = none) :
    Mirrors ((s.setHolder m (some ⟨p, reacquired⟩)).goTo p pc') mutex := by
  obtain ⟨htaken, hlocked, hheld, hunnoted⟩ := h
  refine ⟨fun q hq => ?_, fun r hr hstatus => ?_, fun q hq => ?_, fun q q' hq => ?_⟩
  · grind
  · have howner := hlocked r hr hstatus
    grind [State.Holds, State.BlockedWith]
  · grind
  · grind

/-- The holder gives the mutex up, which it is going to note, or to wait. -/
theorem Mirrors.giveUp (h : Mirrors s mutex) {pc' : Pc} (hheld : s.holder m = some ⟨p, reacquired⟩)
    (hlock : (s.pc p).role.recordsLock = none) (hunlock : (s.pc p).role.recordsUnlock = none)
    (hwaits : (s.pc p).role.waitsWith = none) (hlock' : pc'.role.recordsLock = none)
    (hgives : pc'.role.recordsUnlock = some m ∧ pc'.role.waitsWith = none ∨
      pc'.role.recordsUnlock = none ∧ pc'.role.waitsWith = some m) :
    Mirrors ((s.setHolder m none).goTo p pc') mutex := by
  obtain ⟨htaken, hlocked, hheld, hunnoted⟩ := h
  refine ⟨fun q hq => ?_, fun r hr hstatus => ?_, fun q hq => ?_, fun q q' hq => ?_⟩
  · grind
  · have howner := hlocked r hr hstatus
    grind [State.Holds, State.BlockedWith]
  · grind
  · grind

/-- The record is changed by the thread which has taken the mutex or given it up. -/
theorem Mirrors.note (h : Mirrors s mutex) {r : MutexRecord}
    (hwaits : (s.pc p).role.waitsWith = none)
    (hnotes : (s.pc p).role.recordsLock = some m ∧ (s.pc p).role.recordsUnlock = none ∧
        r = ⟨.locked, p⟩ ∨
      (s.pc p).role.recordsLock = none ∧ (s.pc p).role.recordsUnlock = some m ∧
        r = ⟨.unlocked, ridInvalid⟩) :
    Mirrors ((s.setMutexRecord m r).goTo p .outside) mutex := by
  have hrole' : Pc.outside.role = {} := rfl
  obtain ⟨htaken, hlocked, hheld, hunnoted⟩ := h
  have hholds := htaken p
  refine ⟨fun q hq => ?_, fun r hr hstatus => ?_, fun q hq => ?_, fun q q' hq => ?_⟩
  · grind
  · grind [State.Holds, State.BlockedWith]
  · grind
  · grind

end Steps

/-- What a thread does keeps the record, if it does not overtake another one. -/
theorem Mirrors.effect (h : Mirrors s mutex) (heffect : Effect p s s')
    (hrace : ¬ Overtakes mutex (.proceed p) s) : Mirrors s' mutex := by
  cases heffect with
  | @quiet pc' semaphoreRecords semaphores threadRecords hquiet =>
    exact h.move (t := { s with semaphoreRecords, semaphores, threadRecords }) rfl rfl rfl
      (congrArg Role.recordsLock hquiet.role_eq) (congrArg Role.recordsUnlock hquiet.role_eq)
      (congrArg Role.waitsWith hquiet.role_eq)
  | @park left hpc =>
    exact h.move rfl rfl rfl (by rw [hpc, Pc.role_parked]) (by rw [hpc, Pc.role_parked])
      (by rw [hpc, Pc.role_parked])
  | recordMutex hpc => exact h.recordMutex hpc
  | @lock m hpc hfree =>
    have hnoted : m = mutex → ∀ q, (s.pc q).role.recordsUnlock ≠ some mutex :=
      fun hm q hq => hrace ⟨p, q, rfl, hm ▸ hpc, recordsUnlock_eq_some.mp hq⟩
    exact h.take hfree (fun _ => hnoted) (by rw [hpc]; rfl) (by rw [hpc]; rfl) rfl
      (.inl ⟨rfl, by rw [hpc]; rfl, rfl⟩)
  | recordLocked hpc =>
    exact h.note (by rw [hpc]; rfl) (.inl ⟨by rw [hpc]; rfl, by rw [hpc]; rfl, rfl⟩)
  | unlock hpc hheld =>
    exact h.giveUp hheld (by rw [hpc]; rfl) (by rw [hpc]; rfl) (by rw [hpc]; rfl) rfl
      (.inl ⟨rfl, rfl⟩)
  | recordUnlocked hpc =>
    exact h.note (by rw [hpc]; rfl) (.inr ⟨by rw [hpc]; rfl, by rw [hpc]; rfl, rfl⟩)
  | release hpc hheld =>
    exact h.giveUp hheld (by rw [hpc]; rfl) (by rw [hpc]; rfl) (by rw [hpc]; rfl) rfl
      (.inr ⟨rfl, rfl⟩)
  | reacquire hpc hfree =>
    exact h.take hfree nofun (by rw [hpc]; rfl) (by rw [hpc]; rfl) rfl
      (.inr ⟨rfl, by rw [hpc]; rfl, rfl⟩)
  | enterWait hpc | leaveWait hpc _ _ | failWait hpc =>
    exact h.move rfl rfl rfl (by rw [hpc]; rfl) (by rw [hpc]; rfl) (by rw [hpc]; rfl)
  | signal hquiet =>
    exact h.move rfl rfl rfl (congrArg Role.recordsLock hquiet.role_eq)
      (congrArg Role.recordsUnlock hquiet.role_eq) (congrArg Role.waitsWith hquiet.role_eq)

theorem Mirrors.step (h : Mirrors s mutex) {a : Action} (hstep : Record.step a s = some s')
    (hrace : ¬ Overtakes mutex a s) : Mirrors s' mutex := by
  rcases step_cases hstep with ⟨rfl, rfl⟩ | ⟨p, rfl, heffect⟩ | ⟨p, pc', -, hquiet, rfl⟩
  · exact h.congr rfl rfl (fun _ => Iff.rfl) (fun _ => Iff.rfl) fun _ => Iff.rfl
  · exact h.effect heffect hrace
  · exact h.move rfl rfl rfl (congrArg Role.recordsLock hquiet.role_eq)
      (congrArg Role.recordsUnlock hquiet.role_eq) (congrArg Role.waitsWith hquiet.role_eq)

theorem mirrors_start (threads : RunnerId → Option ThreadStatus) (semaphores : Addr → ℕ)
    (mutex : Addr) : Mirrors (start threads semaphores) mutex :=
  ⟨fun _ => nofun, fun _ => nofun, fun _ => nofun, fun _ _ => nofun⟩

/-! ### When the threads are quiescent -/

/-- A quiescent thread is not about to note anything. -/
theorem role_of_isQuiescent {pc : Pc} (h : pc.isQuiescent = true) :
    pc.role.recordsLock = none ∧ pc.role.recordsUnlock = none := by
  cases pc with
  | checkIn left =>
    rcases left with _ | (_ | _ | _ | _ | _ | _ | _ | _ | _) <;> exact ⟨rfl, rfl⟩
  | parked left =>
    rcases left with _ | (_ | _ | _ | _ | _ | _ | _ | _ | _) <;> exact ⟨rfl, rfl⟩
  | outside | finished | blocked | reacquiring => exact ⟨rfl, rfl⟩
  | _ => cases h

theorem Mirrors.recordsMutex (h : Mirrors s mutex) (hquiescent : s.Quiescent)
    (hr : s.mutexRecords mutex = some r) : RecordsMutex s mutex r := by
  have hlocked : r.status = .locked →
      s.Holds r.owner mutex ∨ s.BlockedWith r.owner mutex := by
    intro hstatus
    rcases h.locked r hr hstatus with hholds | hblocked | hunlock
    · exact .inl hholds
    · exact .inr hblocked
    · rw [(role_of_isQuiescent (hquiescent r.owner)).2] at hunlock
      cases hunlock
  refine ⟨hlocked, fun p hp => ?_, fun hfree hidle hstatus => ?_⟩
  · rcases h.held p hp with hlock | hrecord
    · rw [(role_of_isQuiescent (hquiescent p)).1] at hlock
      cases hlock
    · exact Option.some.inj (hr.symm.trans hrecord)
  · exact (hlocked hstatus).elim (hfree r.owner) (hidle r.owner)

/-- The records of mutexes in the quiescent states of a run. -/
theorem recordsMutex_of_quiescent {threads : RunnerId → Option ThreadStatus}
    {semaphores : Addr → ℕ} {actions : List Action}
    (hrun : runFrom step (start threads semaphores) actions = some s)
    (hrace : ∀ pre a, pre ++ [a] <+: actions → ∀ t,
      runFrom step (start threads semaphores) pre = some t → ¬ Overtakes mutex a t)
    (hquiescent : s.Quiescent) (hr : s.mutexRecords mutex = some r) :
    RecordsMutex s mutex r := by
  have hmirrors : Mirrors s mutex := by
    refine runFrom_induction (P := fun actions s => (∀ pre a, pre ++ [a] <+: actions → ∀ t,
      runFrom step (start threads semaphores) pre = some t → ¬ Overtakes mutex a t) →
        Mirrors s mutex) (fun _ => mirrors_start threads semaphores mutex) ?_ hrun hrace
    intro actions s a s' hs ih hstep hrace
    obtain ⟨hbefore, hlast⟩ := forall_prefix_concat.mp hrace
    exact (ih hbefore).step hstep (hlast s hs)
  exact hmirrors.recordsMutex hquiescent hr

/-- Thread `0` locks the mutex `8`. -/
private def locking : List Action :=
  [.call 0 (.mutexLock 8), .proceed 0, .proceed 0, .proceed 0]

/-- Thread `1` wants the mutex meanwhile, and gets it when thread `0` has noted that it gave it
up. -/
private def handingOver : List Action :=
  locking ++ [.call 1 (.mutexLock 8), .proceed 1, .timeOut 1, .proceed 1, .call 0 (.mutexUnlock 8),
    .proceed 0, .proceed 0, .proceed 0, .proceed 1, .proceed 1]

private theorem not_overtakes_handingOver : ∀ pre a, pre ++ [a] <+: handingOver → ∀ t,
    runFrom step twoThreads pre = some t → ¬ Overtakes 8 a t := by
  have hchecked : ∀ k < handingOver.length, ∀ p < 2, ∀ q < 2,
      ((runFrom step twoThreads (handingOver.take k)).map fun t =>
        decide (handingOver[k]? = some (.proceed p) ∧ t.pc p = .lock 8 ∧ t.pc q = .unlocked 8)) ≠
          some true := by
    decide
  rintro pre a hpre t ht ⟨p, q, rfl, hp, hq⟩
  have hactors : ∀ b ∈ handingOver, b.actor = some 0 ∨ b.actor = some 1 := by decide
  -- the other threads are in the program
  have hlt : ∀ r, t.pc r ≠ .outside → r < 2 := by
    intro r hr
    by_contra hle
    refine hr (pc_of_run ht fun b hb hactor => ?_)
    have hmem := ((List.prefix_append pre [Action.proceed p]).trans hpre).subset hb
    rcases hactors b hmem with h | h
    · obtain rfl := Option.some.inj (hactor.symm.trans h)
      exact hle Nat.zero_lt_two
    · obtain rfl := Option.some.inj (hactor.symm.trans h)
      exact hle Nat.one_lt_two
  obtain ⟨rest, hrest⟩ := hpre
  have hlength : pre.length < handingOver.length := by
    rw [← hrest, List.length_append, List.length_append, List.length_singleton]
    omega
  refine hchecked pre.length hlength p (hlt p (by rw [hp]; simp)) q (hlt q (by rw [hq]; simp)) ?_
  have htake : handingOver.take pre.length = pre := by
    rw [← hrest, List.append_assoc, List.take_left]
  have hnext : handingOver[pre.length]? = some (.proceed p) := by
    rw [← hrest, List.append_assoc, List.getElem?_append_right le_rfl, Nat.sub_self]
    rfl
  rw [htake, ht, Option.map_some, hnext, hp, hq]
  simp

/-- After that the mutex is recorded as locked by thread `1`, which holds it. -/
theorem recordsMutex_of_handingOver :
    ∃ s, runFrom step twoThreads handingOver = some s ∧ s.holder 8 = some ⟨1, false⟩ ∧
      RecordsMutex s 8 ⟨.locked, 1⟩ := by
  obtain ⟨s, hs⟩ := Option.isSome_iff_exists.mp
    (show (runFrom step twoThreads handingOver).isSome = true by rfl)
  have hfinal : ((runFrom step twoThreads handingOver).map fun s =>
      (s.pc 0, s.pc 1, s.holder 8, s.mutexRecords 8)) =
      some (.outside, .outside, some ⟨1, false⟩, some ⟨.locked, 1⟩) := by rfl
  rw [hs] at hfinal
  simp only [Option.map_some, Option.some.injEq, Prod.mk.injEq] at hfinal
  obtain ⟨hzero, hone, hholder, hr⟩ := hfinal
  have hquiescent : s.Quiescent := quiescent_of_twoThreads hs (by decide)
    (by rw [hzero]; rfl) (by rw [hone]; rfl)
  exact ⟨s, hs, hholder, recordsMutex_of_quiescent hs not_overtakes_handingOver hquiescent hr⟩

/-- Thread `0` goes on to wait on the condition variable `9`. -/
private def waitingWith : List Action :=
  locking ++ [.call 0 (.condWait 9 8), .proceed 0, .proceed 0]

/-- A mutex which nobody holds is recorded as locked by the thread which is waiting with it. -/
theorem not_recorded_of_waiting :
    ¬ ∀ (threads : RunnerId → Option ThreadStatus) (semaphores : Addr → ℕ)
      (actions : List Action) (s : State) (mutex : Addr) (r : MutexRecord),
      runFrom step (start threads semaphores) actions = some s → s.restarting = false →
      s.Quiescent → s.mutexRecords mutex = some r →
      (∀ p, r.status = .locked ∧ r.owner = p ↔ s.Holds p mutex) ∧
        (r.status = .unlocked ↔ ∀ p, ¬ s.Holds p mutex) := by
  intro h
  obtain ⟨s, hs⟩ := Option.isSome_iff_exists.mp
    (show (runFrom step twoThreads waitingWith).isSome = true by rfl)
  have hfinal : ((runFrom step twoThreads waitingWith).bind fun s =>
      (s.mutexRecords 8).map fun r => (s.restarting, s.pc 0, s.pc 1, s.holder 8, r)) =
      some (false, .blocked 9 8, .outside, none, ⟨.locked, 0⟩) := by rfl
  rw [hs] at hfinal
  obtain ⟨r, hr, hvalues⟩ := Option.map_eq_some_iff.mp hfinal
  simp only [Prod.mk.injEq] at hvalues
  obtain ⟨hrecording, hzero, hone, hfree, rfl⟩ := hvalues
  have hquiescent : s.Quiescent := quiescent_of_twoThreads hs (by decide)
    (by rw [hzero]; rfl) (by rw [hone]; rfl)
  obtain ⟨reacquired, hholder⟩ :=
    ((h _ _ _ s 8 _ hs hrecording hquiescent hr).1 0).mp ⟨rfl, rfl⟩
  rw [hfree] at hholder
  cases hholder

end McMini.Record
