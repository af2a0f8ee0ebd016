import McMini.Record.Effects

/-!
# The barrier after a restart

After a restart the template thread waits until each recorded thread has posted
`dmtcp_restart_sem`. The loops of the wrappers are there for this: their calls time out, and a
thread which finds the process restarted posts and is parked. But a thread which leaves
`mc_pthread_cond_wait` has got its mutex back and is parked with it, while others may be inside
`libpthread_cond_timedwait` with the same mutex, which they cannot leave without it. The barrier
does not get stuck as long as no thread is parked so (`not_stuck_of_run`).
-/

namespace McMini.Record

open Foundation

variable {s s' : State} {p q : RunnerId} {mutex : Addr}

/-- The template thread waits for the thread. -/
def State.Awaits (s : State) (p : RunnerId) : Prop :=
  s.threadRecords p = some .alive ∧ (s.pc p).role.isParked = false

/-- Each thread for which the template thread waits is blocked: it takes a mutex back which is
held by a parked thread. -/
def State.Stuck (s : State) : Prop :=
  (∃ p, s.Awaits p) ∧ ∀ p, s.Awaits p → ∃ cond mutex rc q,
    s.pc p = .reacquiring cond mutex rc ∧ s.Holds q mutex ∧ (s.pc q).role.isParked = true

/-- A thread is about to post and to be parked, and holds a mutex with which another one is inside
`libpthread_cond_timedwait`. -/
def CutsOff (a : Action) (s : State) : Prop :=
  ∃ p left mutex q, a = .proceed p ∧ s.pc p = .checkIn left ∧ s.Holds p mutex ∧
    s.BlockedWith q mutex

/-! ### Obstructed threads -/

/-- The thread `p` is parked with the mutex which `q` needs. -/
structure Obstructs (s : State) (p q : RunnerId) (mutex : Addr) : Prop where
  parked : (s.pc p).role.isParked = true
  holds : s.Holds p mutex
  blocked : s.BlockedWith q mutex

section Steps

variable {r : RunnerId} {t : State} {pc' : Pc}

/-- A thread moves between places which are the same here, and no mutex changes hands. -/
theorem obstructs_goTo (hpc : t.pc = s.pc) (hholder : t.holder = s.holder)
    (hwaits : pc'.role.waitsWith = (s.pc r).role.waitsWith)
    (hparked : pc'.role.isParked = (s.pc r).role.isParked) :
    Obstructs (t.goTo r pc') p q mutex ↔ Obstructs s p q mutex := by
  have hp := role_goTo Role.isParked hpc hparked p
  have hq := role_goTo Role.waitsWith hpc hwaits q
  have hholds : (t.goTo r pc').Holds p mutex ↔ s.Holds p mutex := by
    unfold State.Holds
    rw [State.goTo_holder, hholder]
  constructor
  · rintro ⟨hparked, hheld, hblocked⟩
    exact ⟨hp ▸ hparked, hholds.mp hheld, hq.symm.trans hblocked⟩
  · rintro ⟨hparked, hheld, hblocked⟩
    exact ⟨hp.symm ▸ hparked, hholds.mpr hheld, hq.trans hblocked⟩

/-- A thread which is parked does not obstruct others, unless it cuts them off. -/
theorem obstructs_park {left : Option Operation} (hpc : s.pc r = .checkIn left) :
    Obstructs (s.goTo r (.parked left)) p q mutex ↔
      Obstructs s p q mutex ∨ p = r ∧ s.Holds r mutex ∧ s.BlockedWith q mutex := by
  have hwaits : (Pc.parked left).role.waitsWith = (s.pc r).role.waitsWith := by
    rw [hpc, Pc.role_parked]
  have hq := role_goTo Role.waitsWith rfl hwaits q
  have hrole' : (Pc.parked left).role.isParked = true := by rw [Pc.role_parked]
  have hrole : (s.pc r).role.isParked = false := by
    rw [hpc]
    rcases left with _ | (_ | _ | _ | _ | _ | _ | _ | _ | _) <;> rfl
  constructor
  · rintro ⟨hparked, hheld, hblocked⟩
    have hblocked' : s.BlockedWith q mutex := hq.symm.trans hblocked
    by_cases hp : p = r
    · exact .inr ⟨hp, hp ▸ hheld, hblocked'⟩
    · rw [State.goTo_pc, if_neg hp] at hparked
      exact .inl ⟨hparked, hheld, hblocked'⟩
  · rintro (⟨hparked, hheld, hblocked⟩ | ⟨rfl, hheld, hblocked⟩)
    · refine ⟨?_, hheld, hq.trans hblocked⟩
      rw [State.goTo_pc]
      split
      · exact hrole'
      · exact hparked
    · refine ⟨?_, hheld, hq.trans hblocked⟩
      rw [State.goTo_pc, if_pos rfl, hrole']

/-- A mutex which is free, or held by a thread which is not parked, changes hands. -/
theorem obstructs_setHolder {m : Addr} {h : Option Holder}
    (hrole : (s.pc r).role.isParked = false) (hrole' : pc'.role.isParked = false)
    (hwaits : ∀ m', m' ≠ m → (pc'.role.waitsWith = some m' ↔ (s.pc r).role.waitsWith = some m'))
    (hbefore : ∀ p, (s.pc p).role.isParked = true → ¬ s.Holds p m)
    (hafter : ∀ b p, h = some ⟨p, b⟩ → p = r) :
    Obstructs ((s.setHolder m h).goTo r pc') p q mutex ↔ Obstructs s p q mutex := by
  constructor
  · rintro ⟨hparked, ⟨b, hheld⟩, hblocked⟩
    rw [State.goTo_pc, State.setHolder_pc] at hparked
    have hp : p ≠ r := by
      rintro rfl
      rw [if_pos rfl, hrole'] at hparked
      cases hparked
    rw [State.goTo_holder, State.setHolder_holder] at hheld
    have hm : mutex ≠ m := by
      rintro rfl
      rw [if_pos rfl] at hheld
      exact hp (hafter b p hheld)
    rw [if_neg hp] at hparked
    rw [if_neg hm] at hheld
    refine ⟨hparked, ⟨b, hheld⟩, ?_⟩
    rw [State.BlockedWith, State.goTo_pc, State.setHolder_pc] at hblocked
    split at hblocked
    next hq => exact hq ▸ (hwaits mutex hm).mp hblocked
    next => exact hblocked
  · rintro ⟨hparked, hheld, hblocked⟩
    have hp : p ≠ r := by
      rintro rfl
      rw [hrole] at hparked
      cases hparked
    have hm : mutex ≠ m := by
      rintro rfl
      exact hbefore p hparked hheld
    refine ⟨?_, ?_, ?_⟩
    · rw [State.goTo_pc, State.setHolder_pc, if_neg hp]
      exact hparked
    · obtain ⟨b, hheld⟩ := hheld
      refine ⟨b, ?_⟩
      rw [State.goTo_holder, State.setHolder_holder, if_neg hm]
      exact hheld
    · rw [State.BlockedWith, State.goTo_pc, State.setHolder_pc]
      split
      next hq => exact (hwaits mutex hm).mpr (hq ▸ hblocked)
      next => exact hblocked

/-- A step lets a thread park, or changes nothing about who is obstructed. -/
theorem obstructs_of_effect (heffect : Effect r s s') :
    (∃ left, s.pc r = .checkIn left ∧ s' = s.goTo r (.parked left)) ∨
      ∀ p q mutex, Obstructs s' p q mutex ↔ Obstructs s p q mutex := by
  -- a thread which holds a mutex and takes a step is not parked
  have hunparked : ∀ {m b}, s.holder m = some ⟨r, b⟩ → (s.pc r).role.isParked = false →
      ∀ p, (s.pc p).role.isParked = true → ¬ s.Holds p m := by
    rintro m b hheld hrole p hparked ⟨b', hheld'⟩
    obtain ⟨rfl, -⟩ := Holder.mk.inj (Option.some.inj (hheld.symm.trans hheld'))
    rw [hrole] at hparked
    cases hparked
  have hfree : ∀ {m}, s.holder m = none → ∀ p, (s.pc p).role.isParked = true → ¬ s.Holds p m := by
    rintro m hnone p - ⟨b, hheld⟩
    rw [hnone] at hheld
    cases hheld
  cases heffect with
  | @quiet pc' semaphoreRecords semaphores threadRecords hquiet =>
    exact .inr fun p q mutex => obstructs_goTo
      (t := { s with semaphoreRecords, semaphores, threadRecords }) rfl rfl
      (congrArg Role.waitsWith hquiet.role_eq) (congrArg Role.isParked hquiet.role_eq)
  | @park left hpc => exact .inl ⟨left, hpc, rfl⟩
  | recordMutex hpc | recordLocked hpc | recordUnlocked hpc | enterWait hpc | leaveWait hpc _ _
  | failWait hpc =>
    exact .inr fun p q mutex => obstructs_goTo rfl rfl (by rw [hpc]; rfl) (by rw [hpc]; rfl)
  | signal hquiet =>
    exact .inr fun p q mutex => obstructs_goTo rfl rfl (congrArg Role.waitsWith hquiet.role_eq)
      (congrArg Role.isParked hquiet.role_eq)
  | @lock m hpc hnone =>
    refine .inr fun p q mutex => obstructs_setHolder (by rw [hpc]; rfl) rfl
      (fun m' _ => by rw [hpc]; exact Iff.rfl) (hfree hnone) ?_
    rintro b p ⟨⟩
    rfl
  | @unlock m b hpc hheld =>
    exact .inr fun p q mutex => obstructs_setHolder (by rw [hpc]; rfl) rfl
      (fun m' _ => by rw [hpc]; exact Iff.rfl) (hunparked hheld (by rw [hpc]; rfl)) nofun
  | @release cond m b hpc hheld =>
    refine .inr fun p q mutex => obstructs_setHolder (by rw [hpc]; rfl) rfl
      (fun m' hm => iff_of_false (fun h => hm (Option.some.inj h).symm) ?_)
      (hunparked hheld (by rw [hpc]; rfl)) nofun
    rw [hpc]
    nofun
  | @reacquire cond m rc hpc hnone =>
    refine .inr fun p q mutex => obstructs_setHolder (by rw [hpc]; rfl) rfl
      (fun m' hm => iff_of_false nofun ?_) (hfree hnone) ?_
    · rw [hpc]
      exact fun h => hm (Option.some.inj h).symm
    · rintro b p ⟨⟩
      rfl

variable {a : Action}

theorem obstructs_of_step (hstep : step a s = some s') (h : Obstructs s' p q mutex) :
    Obstructs s p q mutex ∨ CutsOff a s := by
  rcases step_cases hstep with ⟨rfl, rfl⟩ | ⟨r, rfl, heffect⟩ | ⟨r, pc', -, hquiet, rfl⟩
  · exact .inl ⟨h.parked, h.holds, h.blocked⟩
  · rcases obstructs_of_effect heffect with ⟨left, hpc, rfl⟩ | hsame
    · rcases (obstructs_park hpc).mp h with h | ⟨rfl, hholds, hblocked⟩
      · exact .inl h
      · exact .inr ⟨p, left, mutex, q, rfl, hpc, hholds, hblocked⟩
    · exact .inl ((hsame p q mutex).mp h)
  · exact .inl ((obstructs_goTo rfl rfl (congrArg Role.waitsWith hquiet.role_eq)
      (congrArg Role.isParked hquiet.role_eq)).mp h)

/-- An obstructed thread stays obstructed. -/
theorem Obstructs.step (h : Obstructs s p q mutex) (hstep : Record.step a s = some s') :
    Obstructs s' p q mutex := by
  rcases step_cases hstep with ⟨rfl, rfl⟩ | ⟨r, rfl, heffect⟩ | ⟨r, pc', -, hquiet, rfl⟩
  · exact ⟨h.parked, h.holds, h.blocked⟩
  · rcases obstructs_of_effect heffect with ⟨left, hpc, rfl⟩ | hsame
    · exact (obstructs_park hpc).mpr (.inl h)
    · exact (hsame p q mutex).mpr h
  · exact (obstructs_goTo rfl rfl (congrArg Role.waitsWith hquiet.role_eq)
      (congrArg Role.isParked hquiet.role_eq)).mpr h

/-- A thread which cuts another one off obstructs it. -/
theorem obstructs_of_cutsOff (hstep : Record.step a s = some s') (h : CutsOff a s) :
    ∃ p q mutex, Obstructs s' p q mutex := by
  obtain ⟨p, left, mutex, q, rfl, hpc, hholds, hblocked⟩ := h
  have hparked : s.proceed p = some (s.goTo p (.parked left)) := by
    unfold State.proceed
    rw [hpc]
  obtain rfl := Option.some.inj (hparked.symm.trans hstep)
  exact ⟨p, q, mutex, (obstructs_park hpc).mpr (.inr ⟨rfl, hholds, hblocked⟩)⟩

end Steps

/-! ### The barrier -/

/-- A thread which takes its mutex back from a parked one is obstructed. -/
theorem State.Stuck.obstructs (h : s.Stuck) : ∃ p q mutex, Obstructs s p q mutex := by
  obtain ⟨⟨q, hawaits⟩, hblocked⟩ := h
  obtain ⟨cond, mutex, rc, p, hq, hholds, hparked⟩ := hblocked q hawaits
  exact ⟨p, q, mutex, hparked, hholds, by rw [State.BlockedWith, hq]; rfl⟩

/-- An obstructed thread has not posted. -/
theorem Obstructs.not_parked (h : Obstructs s p q mutex) : (s.pc q).role.isParked = false := by
  have hblocked := h.blocked
  unfold State.BlockedWith at hblocked
  cases hpc : s.pc q with
  | blocked | reacquiring => rfl
  | checkIn left =>
    rw [hpc] at hblocked
    rcases left with _ | (_ | _ | _ | _ | _ | _ | _ | _ | _) <;> cases hblocked
  | parked left =>
    rw [hpc, Pc.role_parked] at hblocked
    rcases left with _ | (_ | _ | _ | _ | _ | _ | _ | _ | _) <;> cases hblocked
  | _ =>
    rw [hpc] at hblocked
    cases hblocked

/-- In a run in which no thread cuts another one off the barrier does not get stuck. A thread
which has been cut off never posts. -/
theorem not_stuck_of_run {threads : RunnerId → Option ThreadStatus} {semaphores : Addr → ℕ}
    {actions : List Action} (hrun : runFrom step (start threads semaphores) actions = some s) :
    ((∀ pre a, pre ++ [a] <+: actions → ∀ t,
        runFrom step (start threads semaphores) pre = some t → ¬ CutsOff a t) → ¬ s.Stuck) ∧
      ∀ pre a, pre ++ [a] <+: actions → ∀ t,
        runFrom step (start threads semaphores) pre = some t → CutsOff a t →
          ∃ q mutex, s.BlockedWith q mutex ∧ (s.pc q).role.isParked = false := by
  constructor
  · intro hnone hstuck
    obtain ⟨p, q, mutex, hobstructs⟩ := hstuck.obstructs
    refine runFrom_induction (P := fun actions s => (∀ pre a, pre ++ [a] <+: actions → ∀ t,
      runFrom step (start threads semaphores) pre = some t → ¬ CutsOff a t) →
        ¬ Obstructs s p q mutex) (fun _ (h : Obstructs (start threads semaphores) p q mutex) =>
          Bool.false_ne_true h.parked) ?_ hrun hnone hobstructs
    intro actions s a s' hs ih hstep hnone h
    obtain ⟨hbefore, hlast⟩ := forall_prefix_concat.mp hnone
    rcases obstructs_of_step hstep h with h | hcutsOff
    · exact ih hbefore h
    · exact hlast s hs hcutsOff
  · rintro pre a ⟨rest, rfl⟩ t ht hcutsOff
    obtain ⟨t', ht', hrest⟩ := runFrom_append_eq_some.mp hrun
    obtain ⟨t₀, ht₀, hstep⟩ := runFrom_concat_eq_some.mp ht'
    obtain rfl := Option.some.inj (ht.symm.trans ht₀)
    obtain ⟨p, q, mutex, hobstructs⟩ := obstructs_of_cutsOff hstep hcutsOff
    have hlater : Obstructs s p q mutex :=
      runFrom_invariant (P := fun s => Obstructs s p q mutex)
        (fun _ _ _ h hstep => h.step hstep) hobstructs hrest
    exact ⟨q, mutex, hlater.blocked, hlater.not_parked⟩

/-- Thread `0` waits on the condition variable `9` with the mutex `8`, and is parked after the
restart. -/
private def parking : List Action :=
  [.call 0 (.mutexLock 8), .proceed 0, .proceed 0, .proceed 0, .call 0 (.condWait 9 8), .proceed 0,
    .proceed 0, .restart, .timeOut 0, .proceed 0, .proceed 0, .proceed 0]

theorem not_stuck_of_parking :
    ∃ s, runFrom step twoThreads parking = some s ∧
      ((∀ pre a, pre ++ [a] <+: parking → ∀ t,
          runFrom step twoThreads pre = some t → ¬ CutsOff a t) → ¬ s.Stuck) ∧
        ∀ pre a, pre ++ [a] <+: parking → ∀ t,
          runFrom step twoThreads pre = some t → CutsOff a t →
            ∃ q mutex, s.BlockedWith q mutex ∧ (s.pc q).role.isParked = false := by
  obtain ⟨s, hs⟩ := Option.isSome_iff_exists.mp
    (show (runFrom step twoThreads parking).isSome = true by rfl)
  exact ⟨s, hs, not_stuck_of_run hs⟩

/-- Both threads wait on the condition variable `9` with the mutex `8`. -/
private def bothWaiting : List Action :=
  [.call 0 (.mutexLock 8), .proceed 0, .proceed 0, .proceed 0, .call 0 (.condWait 9 8), .proceed 0,
    .proceed 0, .call 1 (.mutexLock 8), .proceed 1, .proceed 1, .proceed 1,
    .call 1 (.condWait 9 8), .proceed 1, .proceed 1, .restart, .timeOut 0, .proceed 0, .proceed 0,
    .proceed 0, .timeOut 1]

/-- Of two threads which wait with one mutex, the first to leave keeps the other one. -/
theorem stuck_of_bothWaiting :
    ¬ ∀ (threads : RunnerId → Option ThreadStatus) (semaphores : Addr → ℕ)
      (actions : List Action) (s : State),
      runFrom step (start threads semaphores) actions = some s → ¬ s.Stuck := by
  intro h
  obtain ⟨s, hs⟩ := Option.isSome_iff_exists.mp
    (show (runFrom step twoThreads bothWaiting).isSome = true by rfl)
  have hfinal : (runFrom step twoThreads bothWaiting).map (fun s =>
      (s.pc 0, s.pc 1, s.holder 8, s.threadRecords)) =
      some (.parked (some (.condWait 9 8)), .reacquiring 9 8 .timedOut, some ⟨0, true⟩,
        twoThreads.threadRecords) := by rfl
  rw [hs] at hfinal
  have hvalues := Option.some.inj hfinal
  simp only [Prod.mk.injEq] at hvalues
  obtain ⟨hzero, hone, hholder, hrecords⟩ := hvalues
  have hawaits : s.Awaits 1 := ⟨by rw [hrecords]; rfl, by rw [hone]; rfl⟩
  refine h _ _ _ s hs ⟨⟨1, hawaits⟩, fun p hp => ?_⟩
  have hp_lt : p < 2 := by
    by_contra hge
    have hnone : twoThreads.threadRecords p = none := if_neg hge
    rw [State.Awaits, hrecords, hnone] at hp
    cases hp.1
  have hp1 : p = 1 := by
    by_contra hne
    obtain rfl : p = 0 := Nat.lt_one_iff.mp (lt_of_le_of_ne (Nat.lt_succ_iff.mp hp_lt) hne)
    rw [State.Awaits, hzero] at hp
    cases hp.2
  rw [hp1]
  exact ⟨9, 8, .timedOut, 0, hone, ⟨true, hholder⟩, by rw [hzero]; rfl⟩

end McMini.Record
