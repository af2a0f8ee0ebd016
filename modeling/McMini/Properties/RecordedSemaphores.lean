import McMini.Record.Effects

/-!
# Recorded semaphores

Under the recorder `mc_sem_wait` waits with `libpthread_sem_timedwait` and tries again when the
call times out, until the process is restarted. When the call has succeeded, the recorded count is
decremented in a section of its own, and `mc_sem_post` increments it likewise.

The wrapper takes the value returned by `libpthread_sem_timedwait` for an error number. But that
function returns `-1` when it times out, which is neither `0` nor `ETIMEDOUT`, so that the wrapper
passes it on as an error: the program goes on without the unit it has waited for. The record itself
stays right, and threads return from `mc_sem_wait` with the unit they have waited for, exactly as
long as no call of `libpthread_sem_timedwait` fails (`faithfulRecord_iff`).
-/

namespace McMini.Record

open Foundation

/-- The thread is inside `mc_sem_wait`. -/
def Pc.WaitsFor (pc : Pc) (sem : Addr) : Prop :=
  pc = .entered (.semWait sem) ∨ pc = .semWait sem ∨ pc = .semTaken sem

/-- The thread has changed the semaphore, and not noted it in the record yet. -/
def Pc.OwesNote (pc : Pc) (sem : Addr) : Prop := pc = .semTaken sem ∨ pc = .semPosted sem

/-- In the last step which the thread has taken it has decremented the semaphore. -/
def HasTaken (s₀ : State) (sem : Addr) (p : RunnerId) (actions : List Action) : Prop :=
  ∃ before after t t', actions = before ++ .proceed p :: after ∧
    (∀ a ∈ after, a.actor ≠ some p) ∧ runFrom step s₀ before = some t ∧
    step (.proceed p) t = some t' ∧ t'.semaphores sem + 1 = t.semaphores sem

/-- What is expected of the recorder and the semaphore. The value of a semaphore is at most
`SEM_VALUE_MAX`, which fits into the count. -/
structure FaithfulRecord (s₀ : State) (sem : Addr) (actions : List Action) : Prop where
  /-- A thread which returns from `mc_sem_wait` has decremented the semaphore, and decrements the
  recorded count. -/
  returned : ∀ pre a t t' p, pre ++ [a] <+: actions → runFrom step s₀ pre = some t →
    step a t = some t' → (t.pc p).WaitsFor sem → t'.pc p = .outside →
    HasTaken s₀ sem p pre ∧ ∃ r, t.semaphoreRecords sem = some r ∧
      t'.semaphoreRecords sem = some { r with count := r.count - 1 }
  exact : ∀ pre t, pre <+: actions → runFrom step s₀ pre = some t → t.restarting = false →
    (∀ p, ¬ (t.pc p).OwesNote sem) →
    ∃ r, t.semaphoreRecords sem = some r ∧ r.count = BitVec.ofNat 32 (t.semaphores sem)

/-- No call of `libpthread_sem_timedwait` times out or fails. -/
def NoFailedWait (s₀ : State) (sem : Addr) (actions : List Action) : Prop :=
  ∀ pre a, pre ++ [a] <+: actions → ∀ t, runFrom step s₀ pre = some t →
    ∀ p, a = .timeOut p ∨ a = .fail p → t.pc p ≠ .semWait sem

/-- `mc_sem_init` has initialized the semaphore, and nobody has used it. -/
structure Initialized (s : State) (sem : Addr) : Prop where
  record : s.semaphoreRecords sem = some ⟨BitVec.ofNat 32 (s.semaphores sem), .initialized⟩
  unused : ∀ p, ¬ (s.pc p).WaitsFor sem ∧ ¬ (s.pc p).OwesNote sem

variable {s s' : State} {sem : Addr} {p q : RunnerId} {a : Action}

/-! ### One step -/

/-- A step which neither changes the semaphore nor begins or ends a note of a change. -/
structure Neutral (sem : Addr) (actor : Option RunnerId) (s s' : State) : Prop where
  semaphore : s'.semaphores sem = s.semaphores sem
  record : ∀ r, s.semaphoreRecords sem = some r → s'.semaphoreRecords sem = some r
  others : ∀ q, actor ≠ some q → s'.pc q = s.pc q
  acting : ∀ q, actor = some q → ¬ (s.pc q).OwesNote sem ∧ ¬ (s'.pc q).OwesNote sem

/-- The step of the thread `p` leaves the semaphore alone, and does not end a wait for it. -/
structure Leaves (sem : Addr) (p : RunnerId) (s s' : State) : Prop
    extends Neutral sem (some p) s s' where
  waits : (s.pc p).WaitsFor sem → s'.pc p ≠ .outside

/-- What a thread which proceeds does to the semaphore. -/
inductive SemaphoreStep (sem : Addr) (p : RunnerId) (s : State) : State → Prop
  | leaves {t} (h : Leaves sem p s t) : SemaphoreStep sem p s t
  | take (hpc : s.pc p = .semWait sem) (hpos : 0 < s.semaphores sem) :
      SemaphoreStep sem p s ((s.setSemaphore sem (s.semaphores sem - 1)).goTo p (.semTaken sem))
  | noteTake {r} (hpc : s.pc p = .semTaken sem) (hr : s.semaphoreRecords sem = some r) :
      SemaphoreStep sem p s
        ((s.setSemaphoreRecord sem { r with count := r.count - 1 }).goTo p .outside)
  | post (hpc : s.pc p = .semPost sem) :
      SemaphoreStep sem p s ((s.setSemaphore sem (s.semaphores sem + 1)).goTo p (.semPosted sem))
  | notePost {r} (hpc : s.pc p = .semPosted sem) (hr : s.semaphoreRecords sem = some r) :
      SemaphoreStep sem p s
        ((s.setSemaphoreRecord sem { r with count := r.count + 1 }).goTo p .outside)

/-- A move to another place, next to changes of other objects. -/
theorem Neutral.goTo {t : State} {pc' : Pc} (hsemaphore : t.semaphores sem = s.semaphores sem)
    (hrecord : ∀ r, s.semaphoreRecords sem = some r → t.semaphoreRecords sem = some r)
    (hpc : t.pc = s.pc) (hbefore : ¬ (s.pc p).OwesNote sem) (hafter : ¬ pc'.OwesNote sem) :
    Neutral sem (some p) s (t.goTo p pc') where
  semaphore := hsemaphore
  record := hrecord
  others q hq := by
    have hne : q ≠ p := fun heq => hq (congrArg some heq.symm)
    rw [State.goTo_pc, if_neg hne, hpc]
  acting q hq := by
    obtain rfl := Option.some.inj hq
    rw [State.goTo_pc, if_pos rfl]
    exact ⟨hbefore, hafter⟩

theorem Leaves.goTo {t : State} {pc' : Pc} (hsemaphore : t.semaphores sem = s.semaphores sem)
    (hrecord : ∀ r, s.semaphoreRecords sem = some r → t.semaphoreRecords sem = some r)
    (hpc : t.pc = s.pc) (hbefore : ¬ (s.pc p).OwesNote sem) (hafter : ¬ pc'.OwesNote sem)
    (hwaits : (s.pc p).WaitsFor sem → pc' ≠ .outside) : Leaves sem p s (t.goTo p pc') where
  toNeutral := .goTo hsemaphore hrecord hpc hbefore hafter
  waits h := by
    rw [State.goTo_pc, if_pos rfl]
    exact hwaits h

/-- A thread which is neither at the semaphore nor goes there. -/
theorem Leaves.elsewhere {t : State} {pc pc' : Pc} (hat : s.pc p = pc)
    (hsemaphore : t.semaphores sem = s.semaphores sem)
    (hrecord : ∀ r, s.semaphoreRecords sem = some r → t.semaphoreRecords sem = some r)
    (hpc : t.pc = s.pc) (hbefore : ¬ pc.OwesNote sem ∧ ¬ pc.WaitsFor sem)
    (hafter : ¬ pc'.OwesNote sem) : Leaves sem p s (t.goTo p pc') := by
  subst hat
  exact .goTo hsemaphore hrecord hpc hbefore.1 hafter fun h => absurd h hbefore.2

theorem semaphoreStep_of_enter {op : Operation} (hpc : s.pc p = .entered op)
    (h : s.enter p op = some s') : SemaphoreStep sem p s s' := by
  -- a record which is there stays as it is
  have hkept : ∀ (other : Addr) r, s.semaphoreRecords sem = some r →
      (s.setSemaphoreRecord other (s.semaphoreRecord other)).semaphoreRecords sem = some r := by
    intro other r hr
    by_cases hsem : sem = other
    · subst hsem
      have hsame : s.semaphoreRecord sem = r := by
        rw [State.semaphoreRecord, hr, Option.getD_some]
      exact (Function.update_self sem _ _).trans (congrArg some hsame)
    · exact (Function.update_of_ne hsem _ _).trans hr
  refine .leaves ?_
  cases op with
  | mutexLock mutex | condSignal cond | condBroadcast cond =>
    obtain rfl := Option.some.inj h
    exact .elsewhere hpc rfl (fun _ hr => hr) rfl (by simp [Pc.OwesNote, Pc.WaitsFor])
      (by simp [Pc.OwesNote])
  | condWait cond mutex =>
    obtain rfl := Option.some.inj h
    exact .elsewhere hpc rfl (fun _ hr => hr) rfl (by simp [Pc.OwesNote, Pc.WaitsFor])
      (by simp [Pc.OwesNote])
  | mutexUnlock mutex =>
    obtain ⟨-, h⟩ := Option.ite_none_right_eq_some.mp h
    obtain rfl := Option.some.inj h
    exact .elsewhere hpc rfl (fun _ hr => hr) rfl (by simp [Pc.OwesNote, Pc.WaitsFor])
      (by simp [Pc.OwesNote])
  | semWait other =>
    obtain rfl := Option.some.inj h
    exact .goTo rfl (hkept other) rfl (by simp [hpc, Pc.OwesNote]) (by simp [Pc.OwesNote])
      (by simp)
  | semPost other =>
    obtain rfl := Option.some.inj h
    exact .goTo rfl (hkept other) rfl (by simp [hpc, Pc.OwesNote]) (by simp [Pc.OwesNote])
      (by simp)
  | join t =>
    obtain ⟨-, h⟩ := Option.ite_none_right_eq_some.mp h
    obtain rfl := Option.some.inj h
    exact .elsewhere hpc rfl (fun _ hr => hr) rfl (by simp [Pc.OwesNote, Pc.WaitsFor])
      (by simp [Pc.OwesNote])
  | exit =>
    obtain rfl := Option.some.inj h
    exact .elsewhere hpc rfl (fun _ hr => hr) rfl (by simp [Pc.OwesNote, Pc.WaitsFor])
      (by simp [Pc.OwesNote])

theorem Leaves.retry {op : Operation} {pc pc' : Pc} (hat : s.pc p = pc)
    (hbefore : ¬ pc.OwesNote sem ∧ ¬ pc.WaitsFor sem) (hafter : ¬ pc'.OwesNote sem) :
    Leaves sem p s (s.retry p op pc') := by
  unfold State.retry
  split_ifs
  · exact .elsewhere hat rfl (fun _ hr => hr) rfl hbefore (by simp [Pc.OwesNote])
  · exact .elsewhere hat rfl (fun _ hr => hr) rfl hbefore hafter

theorem semaphoreStep_of_proceed (h : s.proceed p = some s') : SemaphoreStep sem p s s' := by
  -- most places have nothing to do with semaphores
  have elsewhere : ∀ {t : State} {pc pc' : Pc}, s.pc p = pc →
      t.semaphores sem = s.semaphores sem →
      (∀ r, s.semaphoreRecords sem = some r → t.semaphoreRecords sem = some r) → t.pc = s.pc →
      ¬ pc.OwesNote sem ∧ ¬ pc.WaitsFor sem → ¬ pc'.OwesNote sem →
      SemaphoreStep sem p s (t.goTo p pc') :=
    fun hat hsemaphore hrecord hpc hbefore hafter =>
      .leaves (.elsewhere hat hsemaphore hrecord hpc hbefore hafter)
  cases hpc : s.pc p with
  | entered op =>
    simp only [State.proceed, hpc] at h
    exact semaphoreStep_of_enter hpc h
  | semWait other =>
    simp only [State.proceed, hpc, Option.ite_none_right_eq_some, Option.some.injEq] at h
    obtain ⟨hpos, rfl⟩ := h
    by_cases hsem : sem = other
    · subst hsem
      exact .take hpc hpos
    · exact elsewhere hpc (Function.update_of_ne hsem _ _) (fun _ hr => hr) rfl
        (by simp [Pc.OwesNote, Pc.WaitsFor, Ne.symm hsem]) (by simp [Pc.OwesNote, Ne.symm hsem])
  | semTaken other =>
    simp only [State.proceed, hpc, Option.map_eq_some_iff] at h
    obtain ⟨r, hr, rfl⟩ := h
    by_cases hsem : sem = other
    · subst hsem
      exact .noteTake hpc hr
    · exact elsewhere hpc rfl (fun r hr => (Function.update_of_ne hsem _ _).trans hr) rfl
        (by simp [Pc.OwesNote, Pc.WaitsFor, Ne.symm hsem]) (by simp [Pc.OwesNote])
  | semPost other =>
    simp only [State.proceed, hpc, Option.some.injEq] at h
    subst h
    by_cases hsem : sem = other
    · subst hsem
      exact .post hpc
    · exact elsewhere hpc (Function.update_of_ne hsem _ _) (fun _ hr => hr) rfl
        (by simp [Pc.OwesNote, Pc.WaitsFor]) (by simp [Pc.OwesNote, Ne.symm hsem])
  | semPosted other =>
    simp only [State.proceed, hpc, Option.map_eq_some_iff] at h
    obtain ⟨r, hr, rfl⟩ := h
    by_cases hsem : sem = other
    · subst hsem
      exact .notePost hpc hr
    · exact elsewhere hpc rfl (fun r hr => (Function.update_of_ne hsem _ _).trans hr) rfl
        (by simp [Pc.OwesNote, Pc.WaitsFor, Ne.symm hsem]) (by simp [Pc.OwesNote])
  | lockTimedOut mutex | joinTimedOut t =>
    simp only [State.proceed, hpc, Option.some.injEq] at h
    subst h
    exact .leaves (.retry hpc (by simp [Pc.OwesNote, Pc.WaitsFor]) (by simp [Pc.OwesNote]))
  | returned cond mutex rc =>
    cases rc with
    | ok =>
      simp only [State.proceed, hpc, Option.bind_eq_some_iff, Option.map_eq_some_iff] at h
      obtain ⟨r, -, r', -, rfl⟩ := h
      exact elsewhere hpc rfl (fun _ hr => hr) rfl (by simp [Pc.OwesNote, Pc.WaitsFor])
        (by simp [Pc.OwesNote])
    | timedOut =>
      simp only [State.proceed, hpc, Option.some.injEq] at h
      subst h
      exact .leaves (.retry hpc (by simp [Pc.OwesNote, Pc.WaitsFor]) (by simp [Pc.OwesNote]))
    | error =>
      simp only [State.proceed, hpc, Option.some.injEq] at h
      subst h
      exact elsewhere hpc rfl (fun _ hr => hr) rfl (by simp [Pc.OwesNote, Pc.WaitsFor])
        (by simp [Pc.OwesNote])
  | signaled cond | broadcasted cond =>
    simp only [State.proceed, hpc, Option.map_eq_some_iff] at h
    obtain ⟨r, -, rfl⟩ := h
    exact elsewhere hpc rfl (fun _ hr => hr) rfl (by simp [Pc.OwesNote, Pc.WaitsFor])
      (by simp [Pc.OwesNote])
  | lock _ | unlock _ | wait _ _ | reacquiring _ _ _ | join _ =>
    simp only [State.proceed, hpc, Option.ite_none_right_eq_some, Option.some.injEq] at h
    obtain ⟨-, rfl⟩ := h
    exact elsewhere hpc rfl (fun _ hr => hr) rfl (by simp [Pc.OwesNote, Pc.WaitsFor])
      (by simp [Pc.OwesNote])
  | locked _ | unlocked _ | blocked _ _ | signal _ | broadcast _ | joined _ | checkIn _ =>
    simp only [State.proceed, hpc, Option.some.injEq] at h
    subst h
    exact elsewhere hpc rfl (fun _ hr => hr) rfl (by simp [Pc.OwesNote, Pc.WaitsFor])
      (by simp [Pc.OwesNote])
  | outside | finished | parked _ => simp [State.proceed, hpc] at h

/-- A move to another place. -/
theorem Neutral.move {pc' : Pc} (hbefore : ¬ (s.pc p).OwesNote sem)
    (hafter : ¬ pc'.OwesNote sem) : Neutral sem (some p) s (s.goTo p pc') :=
  .goTo rfl (fun _ hr => hr) rfl hbefore hafter

theorem neutral_of_call {op : Operation} (h : step (.call p op) s = some s') :
    Neutral sem (some p) s s' := by
  rw [step, Option.ite_none_right_eq_some, Option.some.injEq] at h
  obtain ⟨⟨-, hpc⟩, rfl⟩ := h
  refine .move (by simp [hpc, Pc.OwesNote]) ?_
  by_cases hrestarting : s.restarting = true
  · simp [hrestarting, Pc.OwesNote]
  · simp [hrestarting, Pc.OwesNote]

theorem neutral_of_timeOut (h : s.timeOut p = some s') : Neutral sem (some p) s s' := by
  unfold State.timeOut at h
  split at h
  case h_5 => cases h
  all_goals
    obtain rfl := Option.some.inj h
    exact .move (by simp [*, Pc.OwesNote]) (by simp [Pc.OwesNote])

theorem neutral_of_fail (h : s.fail p = some s') : Neutral sem (some p) s s' := by
  unfold State.fail at h
  split at h
  case h_10 => cases h
  all_goals
    obtain rfl := Option.some.inj h
    exact .move (by simp [*, Pc.OwesNote]) (by simp [Pc.OwesNote])

/-- Every step but those which change the semaphore or the count is neutral. -/
theorem semaphoreStep_of_step (h : step a s = some s') :
    Neutral sem a.actor s s' ∨ ∃ p, a = .proceed p ∧ SemaphoreStep sem p s s' := by
  cases a with
  | call p op => exact .inl (neutral_of_call h)
  | proceed p => exact .inr ⟨p, rfl, semaphoreStep_of_proceed h⟩
  | timeOut p => exact .inl (neutral_of_timeOut h)
  | fail p => exact .inl (neutral_of_fail h)
  | restart =>
    obtain rfl := Option.some.inj h
    exact .inl ⟨rfl, fun _ hr => hr, fun _ _ => rfl, fun _ hq => nomatch hq⟩

/-! ### The count -/

/-- The recorded count is right up to the changes which are not noted yet: `taken` and `posted` are
the threads which owe a note. -/
structure CountedBy (s : State) (sem : Addr) (taken posted : Finset RunnerId)
    (r : SemaphoreRecord) : Prop where
  record : s.semaphoreRecords sem = some r
  taken_iff : ∀ p, p ∈ taken ↔ s.pc p = .semTaken sem
  posted_iff : ∀ p, p ∈ posted ↔ s.pc p = .semPosted sem
  count : r.count + BitVec.ofNat 32 posted.card =
    BitVec.ofNat 32 (s.semaphores sem + taken.card)

def Counted (s : State) (sem : Addr) : Prop := ∃ taken posted r, CountedBy s sem taken posted r

theorem counted_of_initialized (h : Initialized s sem) : Counted s sem := by
  refine ⟨∅, ∅, _, h.record, fun p => ?_, fun p => ?_, ?_⟩
  · exact iff_of_false (Finset.notMem_empty p) fun hp => (h.unused p).2 (.inl hp)
  · exact iff_of_false (Finset.notMem_empty p) fun hp => (h.unused p).2 (.inr hp)
  · simp

/-- A neutral step keeps the threads at a place where a note is due. -/
theorem Neutral.pc_eq_iff {actor : Option RunnerId} (h : Neutral sem actor s s') {pc' : Pc}
    (hpc : pc'.OwesNote sem) (q : RunnerId) : s.pc q = pc' ↔ s'.pc q = pc' := by
  by_cases hq : actor = some q
  · obtain ⟨hbefore, hafter⟩ := h.acting q hq
    exact iff_of_false (fun heq => hbefore (heq ▸ hpc)) fun heq => hafter (heq ▸ hpc)
  · rw [h.others q hq]

theorem CountedBy.neutral {actor : Option RunnerId} {taken posted : Finset RunnerId}
    {r : SemaphoreRecord} (h : CountedBy s sem taken posted r) (hstep : Neutral sem actor s s') :
    CountedBy s' sem taken posted r where
  record := hstep.record r h.record
  taken_iff q := (h.taken_iff q).trans (hstep.pc_eq_iff (.inl rfl) q)
  posted_iff q := (h.posted_iff q).trans (hstep.pc_eq_iff (.inr rfl) q)
  count := by rw [hstep.semaphore, h.count]

/-- A thread begins a note of a kind. -/
theorem mem_insert_iff_of_goTo {notes : Finset RunnerId} {t : State} {pc' : Pc}
    (h : ∀ q, q ∈ notes ↔ s.pc q = pc') (hpc : t.pc = s.pc) (q : RunnerId) :
    q ∈ insert p notes ↔ (t.goTo p pc').pc q = pc' := by
  rw [Finset.mem_insert, State.goTo_pc, hpc, h]
  by_cases hq : q = p
  · simp [hq]
  · simp [hq]

/-- A thread ends a note of a kind. -/
theorem mem_erase_iff_of_goTo {notes : Finset RunnerId} {t : State} {pc pc' : Pc}
    (h : ∀ q, q ∈ notes ↔ s.pc q = pc) (hpc : t.pc = s.pc) (hne : pc' ≠ pc) (q : RunnerId) :
    q ∈ notes.erase p ↔ (t.goTo p pc').pc q = pc := by
  rw [Finset.mem_erase, State.goTo_pc, hpc, h]
  by_cases hq : q = p
  · simp [hq, hne]
  · simp [hq]

/-- A thread neither begins nor ends a note of a kind. -/
theorem mem_iff_of_goTo {notes : Finset RunnerId} {t : State} {pc pc' : Pc}
    (h : ∀ q, q ∈ notes ↔ s.pc q = pc) (hpc : t.pc = s.pc) (hbefore : s.pc p ≠ pc)
    (hafter : pc' ≠ pc) (q : RunnerId) : q ∈ notes ↔ (t.goTo p pc').pc q = pc := by
  rw [State.goTo_pc, hpc, h]
  by_cases hq : q = p
  · simp [hq, hbefore, hafter]
  · simp [hq]

theorem Counted.step (h : Counted s sem) (hstep : SemaphoreStep sem p s s') : Counted s' sem := by
  obtain ⟨taken, posted, r, hcounted⟩ := h
  have ⟨hrecord, htaken, hposted, hcount⟩ := hcounted
  cases hstep with
  | leaves hleaves => exact ⟨taken, posted, r, hcounted.neutral hleaves.toNeutral⟩
  | take hpc hpos =>
    -- the semaphore is counted down, and the record not yet: the thread makes up for it
    have hp : p ∉ taken := by simp [htaken, hpc]
    refine ⟨insert p taken, posted, r, hrecord, mem_insert_iff_of_goTo htaken rfl,
      mem_iff_of_goTo hposted rfl (by simp [hpc]) (by simp), ?_⟩
    have hsemaphore : ((s.setSemaphore sem (s.semaphores sem - 1)).goTo p
        (.semTaken sem)).semaphores sem = s.semaphores sem - 1 := Function.update_self ..
    rw [hcount, hsemaphore, Finset.card_insert_of_notMem hp]
    congr 1
    omega
  | noteTake hpc hr =>
    rename_i r'
    obtain rfl : r' = r := Option.some.inj (hr.symm.trans hrecord)
    -- the record follows, and nobody has to make up for it any more
    have hp : p ∈ taken := (htaken p).mpr hpc
    refine ⟨taken.erase p, posted, _, Function.update_self .., mem_erase_iff_of_goTo htaken rfl
      (by simp), mem_iff_of_goTo hposted rfl (by simp [hpc]) (by simp), ?_⟩
    rw [← Finset.card_erase_add_one hp, ← Nat.add_assoc, BitVec.ofNat_add] at hcount
    calc r'.count - 1 + BitVec.ofNat 32 posted.card
        = r'.count + BitVec.ofNat 32 posted.card - 1 := by
          rw [BitVec.sub_eq_add_neg, BitVec.sub_eq_add_neg, BitVec.add_assoc, BitVec.add_assoc,
            BitVec.add_comm (-1)]
      _ = BitVec.ofNat 32 (s.semaphores sem + (taken.erase p).card) := by
          rw [hcount]
          exact BitVec.add_sub_cancel ..
  | post hpc =>
    -- in the same way with a post
    have hp : p ∉ posted := by simp [hposted, hpc]
    refine ⟨taken, insert p posted, r, hrecord, mem_iff_of_goTo htaken rfl (by simp [hpc])
      (by simp), mem_insert_iff_of_goTo hposted rfl, ?_⟩
    have hsemaphore : ((s.setSemaphore sem (s.semaphores sem + 1)).goTo p
        (.semPosted sem)).semaphores sem = s.semaphores sem + 1 := Function.update_self ..
    rw [hsemaphore, Finset.card_insert_of_notMem hp, BitVec.ofNat_add, ← BitVec.add_assoc, hcount,
      Nat.add_right_comm]
    exact (BitVec.ofNat_add ..).symm
  | notePost hpc hr =>
    rename_i r'
    obtain rfl : r' = r := Option.some.inj (hr.symm.trans hrecord)
    have hp : p ∈ posted := (hposted p).mpr hpc
    refine ⟨taken, posted.erase p, _, Function.update_self .., mem_iff_of_goTo htaken rfl
      (by simp [hpc]) (by simp), mem_erase_iff_of_goTo hposted rfl (by simp), ?_⟩
    rw [← Finset.card_erase_add_one hp, BitVec.ofNat_add] at hcount
    calc r'.count + 1 + BitVec.ofNat 32 (posted.erase p).card
        = r'.count + (BitVec.ofNat 32 (posted.erase p).card + 1) := by
          rw [BitVec.add_assoc, BitVec.add_comm 1]
      _ = BitVec.ofNat 32 (s.semaphores sem + taken.card) := hcount

theorem counted_of_run {actions : List Action} (hinit : Initialized s sem)
    (h : runFrom McMini.Record.step s actions = some s') : Counted s' sem := by
  refine runFrom_invariant (P := fun t => Counted t sem) (fun t a t' ht hstep => ?_)
    (counted_of_initialized hinit) h
  rcases (semaphoreStep_of_step hstep : Neutral sem _ t t' ∨ _) with hneutral | ⟨p, -, hstep⟩
  · obtain ⟨taken, posted, r, ht⟩ := ht
    exact ⟨taken, posted, r, ht.neutral hneutral⟩
  · exact ht.step hstep

/-- Where no note is due, the recorded count is right. -/
theorem Counted.exact (h : Counted s sem) (hnotes : ∀ p, ¬ (s.pc p).OwesNote sem) :
    ∃ r, s.semaphoreRecords sem = some r ∧ r.count = BitVec.ofNat 32 (s.semaphores sem) := by
  obtain ⟨taken, posted, r, hrecord, htaken, hposted, hcount⟩ := h
  have hnone : taken = ∅ :=
    Finset.eq_empty_of_forall_notMem fun p hp => hnotes p (.inl ((htaken p).mp hp))
  have hnone' : posted = ∅ :=
    Finset.eq_empty_of_forall_notMem fun p hp => hnotes p (.inr ((hposted p).mp hp))
  refine ⟨r, hrecord, ?_⟩
  simpa [hnone, hnone'] using hcount

/-! ### Threads which return -/

theorem SemaphoreStep.taken (h : SemaphoreStep sem p s s') (hpc : s'.pc p = .semTaken sem) :
    s'.semaphores sem + 1 = s.semaphores sem := by
  cases h with
  | leaves h => exact absurd (.inl hpc) (h.acting p rfl).2
  | take _ hpos =>
    have hsemaphore : ((s.setSemaphore sem (s.semaphores sem - 1)).goTo p
        (.semTaken sem)).semaphores sem = s.semaphores sem - 1 := Function.update_self ..
    omega
  | noteTake | post | notePost => simp at hpc

/-- A thread between the two halves of a successful wait has decremented the semaphore. -/
theorem hasTaken_of_run {s₀ : State} {actions : List Action} (hinit : Initialized s₀ sem)
    (h : runFrom McMini.Record.step s₀ actions = some s) (hpc : s.pc p = .semTaken sem) :
    HasTaken s₀ sem p actions := by
  refine runFrom_induction (P := fun pre t => t.pc p = .semTaken sem → HasTaken s₀ sem p pre)
    (fun hpc => absurd (.inl hpc) (hinit.unused p).2) ?_ h hpc
  intro pre t a t' hpre ih hstep hpc'
  by_cases hactor : a.actor = some p
  · -- the thread comes to this place by a successful call only
    rcases semaphoreStep_of_step hstep with hneutral | ⟨q, rfl, hstep'⟩
    · exact absurd (.inl hpc') (hneutral.acting p hactor).2
    · obtain rfl := Option.some.inj hactor
      exact ⟨pre, [], t, t', rfl, by simp, hpre, hstep, hstep'.taken hpc'⟩
  · have hsame : t'.pc p = t.pc p := pc_of_step hstep hactor
    obtain ⟨before, after, u, u', rfl, hafter, hbefore, hu, htaken⟩ := ih (hsame ▸ hpc')
    refine ⟨before, after ++ [a], u, u', by simp, ?_, hbefore, hu, htaken⟩
    intro b hb
    rcases List.mem_append.mp hb with hb | hb
    · exact hafter b hb
    · exact List.mem_singleton.mp hb ▸ hactor

/-- A wait ends with the note of it, or since the call has failed. -/
theorem returns_of_step (h : step a s = some s') (hwaits : (s.pc p).WaitsFor sem)
    (hpc : s'.pc p = .outside) :
    (s.pc p = .semTaken sem ∧ ∃ r, s.semaphoreRecords sem = some r ∧
        s'.semaphoreRecords sem = some { r with count := r.count - 1 }) ∨
      (a = .timeOut p ∨ a = .fail p) ∧ s.pc p = .semWait sem := by
  have hinside : s.pc p ≠ .outside := by
    rcases hwaits with h | h | h <;> simp [h]
  have hactor : a.actor = some p := by
    by_contra hne
    exact hinside ((pc_of_step h hne).symm.trans hpc)
  cases a with
  | call q op =>
    obtain rfl := Option.some.inj hactor
    rw [step, Option.ite_none_right_eq_some] at h
    exact absurd h.1.2 hinside
  | proceed q =>
    obtain rfl := Option.some.inj hactor
    left
    cases (semaphoreStep_of_proceed h : SemaphoreStep sem q s s') with
    | leaves hleaves => exact absurd hpc (hleaves.waits hwaits)
    | noteTake hat hr => exact ⟨hat, _, hr, Function.update_self ..⟩
    | take | post => simp at hpc
    | notePost hat => simp [hat, Pc.WaitsFor] at hwaits
  | timeOut q =>
    obtain rfl := Option.some.inj hactor
    refine .inr ⟨.inl rfl, ?_⟩
    rcases hwaits with hat | hat | hat
    · simp [step, State.timeOut, hat] at h
    · exact hat
    · simp [step, State.timeOut, hat] at h
  | fail q =>
    obtain rfl := Option.some.inj hactor
    refine .inr ⟨.inr rfl, ?_⟩
    rcases hwaits with hat | hat | hat
    · simp [step, State.fail, hat] at h
    · exact hat
    · simp [step, State.fail, hat] at h
  | restart => cases hactor

/-- A failed call returns without any change. -/
theorem returns_of_failure (h : a = .timeOut p ∨ a = .fail p) (hat : s.pc p = .semWait sem) :
    step a s = some (s.goTo p .outside) := by
  rcases h with rfl | rfl
  · simp [step, State.timeOut, hat]
  · simp [step, State.fail, hat]

/-- The record is faithful to the semaphore exactly as long as no call of
`libpthread_sem_timedwait` fails. -/
theorem faithfulRecord_iff {s₀ : State} {actions : List Action} (hinit : Initialized s₀ sem) :
    FaithfulRecord s₀ sem actions ↔ NoFailedWait s₀ sem actions := by
  constructor
  · rintro ⟨hreturned, -⟩ pre a hpre t ht p ha hat
    have hstep := returns_of_failure ha hat
    obtain ⟨-, r, hr, hr'⟩ := hreturned pre a t _ p hpre ht hstep (.inr (.inl hat)) (by simp)
    -- the count has not been decremented
    have hsame : r = { r with count := r.count - 1 } := Option.some.inj (hr.symm.trans hr')
    have hcount : r.count = r.count - 1 := congrArg SemaphoreRecord.count hsame
    bv_omega
  · intro hwaits
    refine ⟨fun pre a t t' p hpre ht hstep hat hout => ?_, fun pre t _ ht _ hnotes => ?_⟩
    · rcases returns_of_step hstep hat hout with ⟨htaken, hr⟩ | ⟨ha, hfails⟩
      · exact ⟨hasTaken_of_run hinit ht htaken, hr⟩
      · exact absurd hfails (hwaits pre a hpre t ht p ha)
    · exact (counted_of_run hinit ht).exact hnotes

/-- Two threads, and a semaphore of value `0`. -/
private def emptySemaphore : State :=
  { twoThreads with semaphoreRecords := fun sem =>
      if sem = 1000 then some ⟨0, .initialized⟩ else none }

private theorem initialized_emptySemaphore : Initialized emptySemaphore 1000 :=
  ⟨rfl, fun _ => by simp [emptySemaphore, twoThreads, start, Pc.WaitsFor, Pc.OwesNote]⟩

/-- A thread posts the semaphore, and the other one takes the unit. -/
theorem faithfulRecord_of_post :
    (∃ s, runFrom step emptySemaphore
      [.call 0 (.semPost 1000), .call 1 (.semWait 1000), .proceed 1, .proceed 0, .proceed 0,
        .proceed 1, .proceed 1, .proceed 0] = some s ∧ s.pc 1 = .outside) ∧
    FaithfulRecord emptySemaphore 1000
      [.call 0 (.semPost 1000), .call 1 (.semWait 1000), .proceed 1, .proceed 0, .proceed 0,
        .proceed 1, .proceed 1, .proceed 0] := by
  refine ⟨⟨_, rfl, rfl⟩, (faithfulRecord_iff initialized_emptySemaphore).mpr ?_⟩
  intro pre a hpre t _ p ha
  have hmem : a ∈ _ := hpre.subset (List.mem_append_right pre (List.mem_singleton_self a))
  rcases ha with rfl | rfl
  · simp at hmem
  · simp at hmem

/-- A wait which takes too long returns to the program. -/
theorem not_faithfulRecord_of_timeOut :
    ¬ FaithfulRecord emptySemaphore 1000
      [.call 0 (.semWait 1000), .proceed 0, .timeOut 0] := by
  intro h
  obtain ⟨-, r, hr, hr'⟩ := h.returned [.call 0 (.semWait 1000), .proceed 0] (.timeOut 0) _ _ 0
    ⟨[], rfl⟩ rfl rfl (.inr (.inl rfl)) rfl
  have hzero : r = ⟨0, .initialized⟩ := (Option.some.inj hr).symm
  subst hzero
  exact absurd (Option.some.inj hr') (by decide)

end McMini.Record
