import McMini.Foundation.Progress
import McMini.Properties.RecordedThreads

/-!
# Whether a restart gets through its barrier

The template thread waits for a post of each thread which is recorded as alive. A thread which
called `pthread_exit` before the checkpoint is gone, and is still recorded so. There is nobody to
post for it, and the template thread waits for ever.

Neither does a thread post which does not come out of the wrapper it is in. Most wrappers look at
the mode from time to time, but `mc_pthread_cond_wait` has to take back the mutex of the wait first.
A thread which has come out keeps it while it is parked, so that of two threads which wait with one
mutex the second one stays (`Waits`).

Otherwise the template thread can get through: first the threads which have still to change the
records do so, then it counts, and the others come one after the other (`OnTheWay.exists_step`).
-/

namespace McMini.Restart

open Foundation TargetThread Transfer

variable {r r' : Recording} {p p' : Process} {k : ℕ} {u v : User} {pc : UserPc}
  {templateLoop : Bool} {t : Addr}

/-! ### Threads which have left -/

/-- A thread has ended, or is about to, without marking its record. -/
def Recording.Departed (r : Recording) : Prop := ∃ u ∈ r.users, u.pc.leaves = true

theorem departed_goTo (hu : r.users[k]? = some u) (hleaves : pc.leaves = u.pc.leaves) :
    (r.goTo k u pc).Departed ↔ r.Departed := by
  have hlt : k < r.users.length := (List.getElem?_eq_some_iff.mp hu).1
  constructor
  · rintro ⟨v, hv, hleft⟩
    rcases List.mem_or_eq_of_mem_set hv with hv | rfl
    · exact ⟨v, hv, hleft⟩
    · exact ⟨u, List.mem_of_getElem? hu, hleaves.symm.trans hleft⟩
  · rintro ⟨v, hv, hleft⟩
    obtain ⟨j, hj⟩ := List.mem_iff_getElem?.mp hv
    by_cases hjk : j = k
    · subst hjk
      obtain rfl := Option.some.inj (hu.symm.trans hj)
      exact ⟨{ u with pc := pc }, List.mem_of_getElem? (List.getElem?_set_self hlt),
        hleaves.trans hleft⟩
    · exact ⟨v, List.mem_of_getElem? ((List.getElem?_set_ne (Ne.symm hjk)).trans hj), hleft⟩

theorem departed_stepUser (hu : r.users[k]? = some u) (hstep : r.stepUser k u = some r') :
    r'.Departed ↔ r.Departed := by
  cases hpc : u.pc with
  | starting | leaving =>
    simp only [Recording.stepUser, hpc] at hstep
    exact Option.some.inj hstep ▸ departed_goTo hu (by rw [hpc]; rfl)
  | creating =>
    simp only [Recording.stepUser, hpc] at hstep
    split_ifs at hstep
    exact Option.some.inj hstep ▸ departed_goTo hu (by rw [hpc]; rfl)
  | recording =>
    simp only [Recording.stepUser, hpc, Recording.record] at hstep
    split_ifs at hstep <;> exact Option.some.inj hstep ▸ departed_goTo hu (by rw [hpc]; rfl)
  | ending =>
    simp only [Recording.stepUser, hpc, Recording.markExited] at hstep
    split at hstep <;> exact Option.some.inj hstep ▸ departed_goTo hu (by rw [hpc]; rfl)
  | registered | ended | left | outside | elsewhere | entering | entered | handling | overflowed
  | crashed | assertionFailed =>
    simp only [Recording.stepUser, hpc] at hstep
    cases hstep

/-- Nothing but `pthread_exit` makes a thread leave, and it does not come back. -/
theorem departed_of_effect (heffect : r.Effect r') : r'.Departed ↔ r.Departed := by
  cases heffect with
  | none => exact Iff.rfl
  | goTo hu _ _ hleaves => exact departed_goTo hu hleaves
  | stepUser hu hstep => exact departed_stepUser hu hstep
  | recordObject => exact Iff.rfl
  | create hu hpc =>
    rename_i k u t
    have hset : (r.goTo k u (.creating r.users.length)).Departed ↔ r.Departed :=
      departed_goTo hu (by rw [hpc]; rfl)
    rw [← hset]
    constructor
    · rintro ⟨v, hv, hleft⟩
      rcases List.mem_append.mp hv with hv | hv
      · exact ⟨v, hv, hleft⟩
      · rw [List.mem_singleton.mp hv] at hleft
        cases hleft
    · exact fun ⟨v, hv, hleft⟩ => ⟨v, List.mem_append_left _ hv, hleft⟩

/-- While the program is recorded, threads leave by `pthread_exit`. -/
theorem departed_iff_of_run {actions : List RecordAction}
    (hrun : runFrom Recording.step (recordMainThread t) actions = some r) :
    r.Departed ↔ ∃ k, RecordAction.exit k ∈ actions := by
  refine runFrom_induction (P := fun actions r => r.Departed ↔ ∃ k, RecordAction.exit k ∈ actions)
    ?_ ?_ hrun
  · refine iff_of_false ?_ (by simp)
    rintro ⟨v, hv, hleft⟩
    rw [List.mem_singleton.mp hv] at hleft
    cases hleft
  · intro actions r a r' _ ih hstep
    rcases effect_of_record hstep with ⟨hnot, heffect⟩ | ⟨k, u, rfl, hu, -, rfl⟩
    · rw [departed_of_effect heffect, ih]
      refine exists_congr fun k => ?_
      rw [List.mem_append, List.mem_singleton, or_iff_left (Ne.symm (hnot k))]
    · have hlt : k < r.users.length := (List.getElem?_eq_some_iff.mp hu).1
      exact iff_of_true ⟨_, List.mem_of_getElem? (List.getElem?_set_self hlt), rfl⟩
        ⟨k, List.mem_append_right _ (List.mem_singleton_self _)⟩

/-! ### Threads which have still to post -/

/-- The thread has still to change the records. -/
def UserPc.isUnsettled : UserPc → Bool
  | .starting | .registered _ | .recording _ | .ending => true
  | _ => false

def Place.distance : Place → ℕ
  | .allocated => 4
  | .cleared => 3
  | .described => 2
  | .saved => 1
  | _ => 0

/-- The steps which the thread takes until it posts, or ends. -/
def UserPc.distance : UserPc → ℕ
  | .starting => 11
  | .registered _ => 10
  | .recording _ => 9
  | .creating _ => 8
  | .outside => 7
  | .entering => 6
  | .entered _ => 5
  | .handling _ place => place.distance
  | .ending => 1
  | _ => 0

/-- The steps of the template thread, if no more than so many threads are recorded. -/
def TemplatePc.distance (threads : ℕ) : TemplatePc → ℕ
  | .sleeping => threads + 2
  | .barrier left => left + 1
  | _ => 0

def totalDistance : List User → ℕ
  | [] => 0
  | u :: users => u.pc.distance + totalDistance users

def Process.distance (p : Process) : ℕ :=
  totalDistance p.users + p.template.distance p.users.length

theorem totalDistance_set_lt {users : List User} (hu : users[k]? = some u)
    (hlt : v.pc.distance < u.pc.distance) :
    totalDistance (users.set k v) < totalDistance users := by
  induction users generalizing k with
  | nil => cases hu
  | cons w users ih =>
    cases k with
    | zero =>
      obtain rfl := Option.some.inj hu
      exact Nat.add_lt_add_right hlt _
    | succ k => exact Nat.add_lt_add_left (ih hu) _

/-- The thread is nearer to its post, and does not turn out to change the records. -/
structure UserPc.Nearer (pc pc' : UserPc) : Prop where
  distance : pc'.distance < pc.distance
  leaves : pc'.leaves = false
  settled : pc.isUnsettled = false → pc'.isUnsettled = false

/-- The thread takes a step, and is nearer then. -/
def Process.Approaches (p : Process) (k : ℕ) (u : User) : Prop :=
  ∃ (pc : UserPc) (p' : Process), p.stepUser k u = some p' ∧
    p'.users = p.users.set k { u with pc := pc } ∧ p'.template = p.template ∧ u.pc.Nearer pc

/-- What there still is to do can be done. -/
structure OnTheWay (templateLoop : Bool) (p : Process) : Prop where
  registered : Registered templateLoop p
  departed : ∀ u ∈ p.users, u.pc.leaves = false
  size : p.users.length ≤ maxThreadInfos
  settled : p.template = .sleeping ∨ ∀ u ∈ p.users, u.pc.isUnsettled = false

/-- A thread which has to change the records does so. -/
theorem Registered.approaches_of_unsettled (h : Registered templateLoop p)
    (hu : p.users[k]? = some u) (hunsettled : u.pc.isUnsettled = true) : p.Approaches k u := by
  cases hpc : u.pc with
  | starting =>
    refine ⟨.registered p.tidNext, { p with toRecording := p.toRecording.register k u }, ?_, rfl,
      rfl, ?_⟩
    · simp only [Process.stepUser, Recording.stepUser, hpc]
      rfl
    · rw [hpc]
      exact ⟨by simp [UserPc.distance], rfl, by simp [UserPc.isUnsettled]⟩
  | registered id =>
    have hmode := h.mode_eq_of_isNew hu (by rw [hpc]; rfl)
    refine ⟨.recording id, p.goTo k u (.recording id), ?_, rfl, rfl, ?_⟩
    · simp only [Process.stepUser, hpc, hmode, isInRestartMode_restartMode, if_pos]
    · rw [hpc]
      exact ⟨by simp [UserPc.distance], rfl, by simp [UserPc.isUnsettled]⟩
  | recording id =>
    obtain ⟨heq, -⟩ := h.listed.record hu hpc
    refine ⟨.outside, { p with toRecording := p.toRecording.record k u id }, ?_, ?_, rfl, ?_⟩
    · simp only [Process.stepUser, Recording.stepUser, hpc]
      rfl
    · show (p.toRecording.record k u id).users = _
      rw [heq]
      rfl
    · rw [hpc]
      exact ⟨by simp [UserPc.distance], rfl, fun _ => rfl⟩
  | ending =>
    obtain ⟨before, id, after, -, heq, -⟩ := h.listed.markExited hu hpc
    refine ⟨.ended, { p with toRecording := p.toRecording.markExited k u }, ?_, ?_, rfl, ?_⟩
    · simp only [Process.stepUser, Recording.stepUser, hpc]
      rfl
    · show (p.toRecording.markExited k u).users = _
      rw [heq]
      rfl
    · rw [hpc]
      exact ⟨by simp [UserPc.distance], rfl, fun _ => rfl⟩
  | ended | leaving | left | creating | outside | elsewhere | entering | entered | handling
  | overflowed | crashed | assertionFailed =>
    rw [hpc] at hunsettled
    cases hunsettled

/-- A thread with a `threadinfo` goes on to its post. -/
theorem OnTheWay.approaches_handling (h : OnTheWay templateLoop p) (hu : p.users[k]? = some u)
    {l : Locals} {place : Place} (hpc : u.pc = .handling l place)
    (hnot : place.notified = false) : p.Approaches k u := by
  have hmem := List.mem_of_getElem? hu
  obtain ⟨-, hpid, -, -⟩ := h.registered.numbered.handling hmem hpc
  have hnearer : ∀ place' : Place, place'.distance < place.distance →
      u.pc.Nearer (.handling l place') := by
    intro place' hlt
    rw [hpc]
    exact ⟨hlt, rfl, fun _ => rfl⟩
  cases place with
  | allocated =>
    -- there is a `threadinfo` for it
    have hidx : l.origThreadIdx < p.threadIdx :=
      h.registered.numbered.drawn.lt hmem (by rw [hpc]; rfl)
    have hcount : p.threadIdx ≤ p.users.length := by
      rw [← h.registered.numbered.drawn.countP_eq]
      exact List.countP_le_length
    have hsize := h.size
    refine ⟨.handling l .cleared,
      (p.setThreadInfo l.origThreadIdx {}).goTo k u (.handling l .cleared), ?_, rfl, rfl,
      hnearer .cleared (by decide)⟩
    simp only [Process.stepUser, hpc, Process.stepHandling]
    rw [if_pos (by omega)]
  | cleared =>
    have hstep := show p.stepUser k u = some _ by rw [Process.stepUser, hpc]; rfl
    exact ⟨.handling l .described, _, hstep, rfl, rfl, hnearer .described (by decide)⟩
  | described =>
    have hstep := show p.stepUser k u = some _ by rw [Process.stepUser, hpc]; rfl
    exact ⟨.handling l .saved, _, hstep, rfl, rfl, hnearer .saved (by decide)⟩
  | saved =>
    refine ⟨.handling l .switching,
      { p.goTo k u (.handling l .switching) with dmtcpRestartSem := p.dmtcpRestartSem + 1 }, ?_,
      rfl, rfl, hnearer .switching (by decide)⟩
    simp only [Process.stepUser, hpc, Process.stepHandling, if_pos hpid.symm]
  | switching | locking | testing | waiting | reacquiring | unlocking | awaiting | aborted =>
    cases hnot

/-- When nobody has to change the records any more, the others come to their posts. -/
theorem OnTheWay.approaches_of_settled (h : OnTheWay templateLoop p)
    (hsettled : ∀ u ∈ p.users, u.pc.isUnsettled = false) (hu : p.users[k]? = some u)
    (hrecorded : u.recorded.isSome = true) (hnot : u.pc.notified = false) : p.Approaches k u := by
  have hmem := List.mem_of_getElem? hu
  have hmode := h.registered.mode_eq hmem hrecorded hnot
  have hstays := h.departed u hmem
  have hsettled' := hsettled u hmem
  cases hpc : u.pc with
  | starting | registered | recording | ending =>
    rw [hpc] at hsettled'
    cases hsettled'
  | leaving | left =>
    rw [hpc] at hstays
    cases hstays
  | ended | assertionFailed =>
    rw [User.recorded, hpc] at hrecorded
    cases hrecorded
  | creating c =>
    -- the new thread has recorded itself
    have hchild : (p.users[c]?).any (·.pc.isNew) = false := by
      cases hv : p.users[c]? with
      | none => rfl
      | some v =>
        have hold := hsettled v (List.mem_of_getElem? hv)
        show v.pc.isNew = false
        cases hvpc : v.pc <;> rw [hvpc] at hold <;> first | rfl | cases hold
    refine ⟨.outside, p.goTo k u .outside, ?_, rfl, rfl, ?_⟩
    · simp only [Process.stepUser, Recording.stepUser, hpc, hchild]
      rfl
    · rw [hpc]
      exact ⟨by simp [UserPc.distance], rfl, fun _ => rfl⟩
  | outside =>
    refine ⟨.entering, p.goTo k u .entering, ?_, rfl, rfl, ?_⟩
    · simp only [Process.stepUser, hpc, hmode, isInRestartMode_restartMode, if_pos]
    · rw [hpc]
      exact ⟨by simp [UserPc.distance], rfl, fun _ => rfl⟩
  | entering =>
    refine ⟨.entered p.mode, p.goTo k u (.entered p.mode), ?_, rfl, rfl, ?_⟩
    · simp only [Process.stepUser, hpc]
    · rw [hpc]
      exact ⟨by simp [UserPc.distance], rfl, fun _ => rfl⟩
  | entered mode =>
    refine ⟨.handling ⟨mode, p.pid, p.threadIdx⟩ .allocated,
      { p.goTo k u (.handling ⟨mode, p.pid, p.threadIdx⟩ .allocated) with
        threadIdx := p.threadIdx + 1 }, ?_, rfl, rfl, ?_⟩
    · simp only [Process.stepUser, hpc]
    · rw [hpc]
      exact ⟨by simp [UserPc.distance, Place.distance], rfl, fun _ => rfl⟩
  | handling l place =>
    rw [hpc] at hnot
    exact h.approaches_handling hu hpc hnot
  | elsewhere | overflowed | crashed =>
    exact absurd (h.registered.numbered.proper u hmem).not_fails (by simp [UserPc.Fails, hpc])

theorem isRegistering_of_settled (h : pc.isUnsettled = false) : pc.isRegistering = false := by
  cases pc <;> first | rfl | cases h

/-- The step of a thread which gets nearer is in order, and leaves the others on their way. -/
theorem OnTheWay.user (h : OnTheWay templateLoop p) (branches : List Process)
    (hu : p.users[k]? = some u) (hcase : p.template = .sleeping ∨ u.pc.isUnsettled = false)
    (happroaches : p.Approaches k u) :
    ∃ p', Orderly ⟨p, branches⟩ (.restarted (.user k)) ∧ p.step (.user k) = some p' ∧
      OnTheWay templateLoop p' ∧ p'.distance < p.distance := by
  obtain ⟨pc, p', hstep, husers, htemplate, hnearer⟩ := happroaches
  have hlive : (liveThreads p.recList).length ≤ maxThreadInfos := by
    rw [← h.registered.listed.length]
    exact List.countP_le_length.trans h.size
  have horderly : Orderly ⟨p, branches⟩ (.restarted (.user k)) := by
    refine ⟨hlive, hcase.imp_right fun hsettled v hv => ?_⟩
    obtain rfl := Option.some.inj (hu.symm.trans hv)
    exact isRegistering_of_settled hsettled
  have hstep' : p.step (.user k) = some p' := by
    rw [Process.step, hu]
    exact hstep
  refine ⟨p', horderly, hstep', ⟨h.registered.step horderly hstep', fun v hv => ?_, ?_, ?_⟩, ?_⟩
  · rw [husers] at hv
    rcases List.mem_or_eq_of_mem_set hv with hv | rfl
    · exact h.departed v hv
    · exact hnearer.leaves
  · rw [husers, List.length_set]
    exact h.size
  · rw [htemplate]
    refine h.settled.imp_right fun hsettled v hv => ?_
    rw [husers] at hv
    rcases List.mem_or_eq_of_mem_set hv with hv | rfl
    · exact hsettled v hv
    · exact hnearer.settled (hsettled u (List.mem_of_getElem? hu))
  · rw [Process.distance, Process.distance, husers, htemplate, List.length_set]
    exact Nat.add_lt_add_right (totalDistance_set_lt hu hnearer.distance) _

/-- The same of a step of the template thread. -/
theorem OnTheWay.template (h : OnTheWay templateLoop p) (branches : List Process)
    (hsettled : ∀ u ∈ p.users, u.pc.isUnsettled = false) (hstep : p.stepTemplate = some p')
    (husers : p'.users = p.users)
    (hlt : p'.template.distance p.users.length < p.template.distance p.users.length) :
    ∃ a p', Orderly ⟨p, branches⟩ (.restarted a) ∧ p.step a = some p' ∧
      OnTheWay templateLoop p' ∧ p'.distance < p.distance := by
  refine ⟨.template, p', trivial, hstep,
    ⟨h.registered.stepTemplate hstep, husers ▸ h.departed, husers ▸ h.size,
      .inr (husers ▸ hsettled)⟩, ?_⟩
  rw [Process.distance, Process.distance, husers]
  exact Nat.add_lt_add_left hlt _

theorem exists_lt_of_countP_lt {f g : User → Bool} {l : List User}
    (hlt : l.countP f < l.countP g) : ∃ u ∈ l, g u = true ∧ f u = false := by
  by_contra hnone
  push Not at hnone
  refine absurd hlt (Nat.not_lt.mpr (List.countP_mono_left fun u hu hg => ?_))
  exact (Bool.not_eq_false _).mp (hnone u hu hg)

/-- **As long as the template thread is before or at its barrier, there is something to do.** -/
theorem OnTheWay.exists_step (h : OnTheWay templateLoop p) (branches : List Process)
    (hnot : ¬ p.template.PastBarrier) :
    ∃ a p', Orderly ⟨p, branches⟩ (.restarted a) ∧ p.step a = some p' ∧
      OnTheWay templateLoop p' ∧ p'.distance < p.distance := by
  by_cases hsettled : ∀ u ∈ p.users, u.pc.isUnsettled = false
  · cases ht : p.template with
    | sleeping =>
      -- all records are there, and are counted
      have hstep : p.stepTemplate =
          some { p with template := .barrier (threadCount p.recList) } := by
        simp only [Process.stepTemplate, ht]
      refine h.template branches hsettled hstep rfl ?_
      have hcount : threadCount p.recList ≤ p.users.length := by
        rw [threadCount_eq, ← h.registered.listed.length]
        exact List.countP_le_length
      rw [ht]
      simp only [TemplatePc.distance]
      omega
    | barrier left =>
      cases left with
      | zero =>
        have hdone : ∃ p', p.stepTemplate = some p' ∧ p'.users = p.users ∧
            p'.template = .publishing := by
          simp only [Process.stepTemplate, ht]
          split_ifs <;> exact ⟨_, rfl, rfl, rfl⟩
        obtain ⟨p', hstep, husers, htemplate⟩ := hdone
        refine h.template branches hsettled hstep husers ?_
        rw [ht, htemplate]
        exact Nat.one_pos
      | succ left =>
        by_cases hsem : 0 < p.dmtcpRestartSem
        · have hstep : p.stepTemplate = some { p with
              dmtcpRestartSem := p.dmtcpRestartSem - 1, template := .barrier left } := by
            simp only [Process.stepTemplate, ht, if_pos hsem]
          refine h.template branches hsettled hstep rfl ?_
          rw [ht]
          exact Nat.lt_succ_self _
        · -- some recorded thread has not posted
          have hawaited := h.registered.awaited.awaited
          have hlength := h.registered.listed.length
          rw [ht] at hawaited
          simp only [TemplatePc.left] at hawaited
          obtain ⟨u, hu, hrecorded, hnotified⟩ := exists_lt_of_countP_lt
            (f := fun u => u.pc.notified) (g := fun u => u.recorded.isSome)
            (l := p.users) (by omega)
          obtain ⟨k, hk⟩ := List.mem_iff_getElem?.mp hu
          exact ⟨.user k, h.user branches hk (.inr (hsettled u hu))
            (h.approaches_of_settled hsettled hk hrecorded hnotified)⟩
    | publishing | waitingForRequest | waitingForDeath | recreating | opening | locking
    | broadcasting | unlocking | finished =>
      rw [ht] at hnot
      exact absurd trivial hnot
  · have hsleeping := h.settled.resolve_right hsettled
    push Not at hsettled
    obtain ⟨u, hu, hunsettled⟩ := hsettled
    obtain ⟨k, hk⟩ := List.mem_iff_getElem?.mp hu
    exact ⟨.user k, h.user branches hk (.inl hsleeping)
      (h.registered.approaches_of_unsettled hk ((Bool.not_eq_false _).mp hunsettled))⟩

/-! ### What the threads wait for -/

/-- The thread of the program which acts. -/
def ThreadAction.thread : ThreadAction → Option ℕ
  | .user k | .create k _ | .object k _ _ | .wake k => some k
  | .template => none

/-- What the threads are in when the checkpoint is taken. -/
structure Waits where
  /-- What a thread has to get before it comes out of the wrapper which it is in. In
  `mc_pthread_cond_wait` this is the mutex, which `libpthread_cond_timedwait` takes back before it
  returns. A thread which has come out keeps it: it calls no wrapper before it is parked. -/
  awaited : ℕ → Option Addr
  /-- What nobody can get, as a thread which does not wait has it. -/
  kept : Set Addr

namespace Waits

variable (waits : Waits)

/-- The thread is in the wrapper, or has come out and not called another one. -/
def Inside (p : Process) (k : ℕ) : Prop := (p.users[k]?).map (·.pc) = some .outside

/-- A thread which waits acts only if it can have come out: what it waits for is not kept, and has
not been taken by another one. -/
def Allows (s : State) : Action → Prop
  | .restarted a => ∀ k m, a.thread = some k → waits.awaited k = some m → Inside s.restarted k →
      m ∉ waits.kept ∧ ∀ k' ≠ k, waits.awaited k' = some m → Inside s.restarted k'
  | _ => True

/-- Each thread gets what it waits for: nobody keeps it, and nobody else waits for it. -/
def Served : Prop :=
  ∀ k m, waits.awaited k = some m → m ∉ waits.kept ∧ ∀ k', waits.awaited k' = some m → k' = k

/-- A thread which is not inside any more has come out, and those which wait for the same have
not. -/
def Excludes (p : Process) : Prop :=
  ∀ k m, waits.awaited k = some m → Inside p k ∨
    (m ∉ waits.kept ∧ ∀ k' ≠ k, waits.awaited k' = some m → Inside p k')

end Waits

theorem users_of_stepRecording (hstep : r.stepUser k u = some r') :
    ∃ pc : UserPc, r'.users = r.users.set k { u with pc := pc } := by
  cases hpc : u.pc with
  | starting | leaving =>
    simp only [Recording.stepUser, hpc] at hstep
    exact Option.some.inj hstep ▸ ⟨_, rfl⟩
  | creating =>
    simp only [Recording.stepUser, hpc] at hstep
    split_ifs at hstep
    exact Option.some.inj hstep ▸ ⟨_, rfl⟩
  | recording =>
    simp only [Recording.stepUser, hpc, Recording.record] at hstep
    split_ifs at hstep <;> exact Option.some.inj hstep ▸ ⟨_, rfl⟩
  | ending =>
    simp only [Recording.stepUser, hpc, Recording.markExited] at hstep
    split at hstep <;> exact Option.some.inj hstep ▸ ⟨_, rfl⟩
  | registered | ended | left | outside | elsewhere | entering | entered | handling | overflowed
  | crashed | assertionFailed =>
    simp only [Recording.stepUser, hpc] at hstep
    cases hstep

/-- A thread changes its own place only. -/
theorem users_of_stepUser (hstep : p.stepUser k u = some p') :
    ∃ pc : UserPc, p'.users = p.users.set k { u with pc := pc } := by
  cases hpc : u.pc with
  | starting | recording | ending | leaving | creating =>
    simp only [Process.stepUser, hpc] at hstep
    obtain ⟨r, hr, rfl⟩ := Option.map_eq_some_iff.mp hstep
    exact users_of_stepRecording hr
  | registered | outside | entering | entered =>
    simp only [Process.stepUser, hpc] at hstep
    exact Option.some.inj hstep ▸ ⟨_, rfl⟩
  | handling l place =>
    simp only [Process.stepUser, hpc] at hstep
    obtain ⟨-, pc, -, hrecording⟩ := stepHandling_frame hstep
    exact ⟨pc, by rw [hrecording]; rfl⟩
  | ended | left | elsewhere | overflowed | crashed | assertionFailed =>
    simp only [Process.stepUser, hpc] at hstep
    cases hstep

/-- The template thread wakes threads, and creates some. -/
theorem users_of_stepTemplate (hstep : p.stepTemplate = some p') :
    ∃ created, p'.users = p.users ++ created ∨ p'.users = p.users.map (·.woken) ++ created := by
  cases ht : p.template with
  | sleeping | opening | unlocking =>
    simp only [Process.stepTemplate, ht] at hstep
    exact ⟨[], .inl (Option.some.inj hstep ▸ (List.append_nil _).symm)⟩
  | broadcasting =>
    simp only [Process.stepTemplate, ht] at hstep
    exact ⟨[], .inr (Option.some.inj hstep ▸ (List.append_nil _).symm)⟩
  | barrier left =>
    cases left with
    | zero =>
      simp only [Process.stepTemplate, ht] at hstep
      split_ifs at hstep <;> exact ⟨[], .inl (Option.some.inj hstep ▸ (List.append_nil _).symm)⟩
    | succ left =>
      simp only [Process.stepTemplate, ht] at hstep
      split_ifs at hstep
      exact ⟨[], .inl (Option.some.inj hstep ▸ (List.append_nil _).symm)⟩
  | publishing | locking =>
    simp only [Process.stepTemplate, ht] at hstep
    split_ifs at hstep <;> exact ⟨[], .inl (Option.some.inj hstep ▸ (List.append_nil _).symm)⟩
  | recreating i n =>
    simp only [Process.stepTemplate, ht] at hstep
    split_ifs at hstep
    · exact ⟨[(p.threadInfos i).recreate], .inl (Option.some.inj hstep ▸ rfl)⟩
    · exact ⟨[], .inl (Option.some.inj hstep ▸ (List.append_nil _).symm)⟩
  | waitingForRequest | waitingForDeath | finished =>
    simp only [Process.stepTemplate, ht] at hstep
    cases hstep

/-- The threads which do not act stay inside. -/
theorem Waits.Inside.step {a : ThreadAction} (h : Waits.Inside p k) (hstep : p.step a = some p')
    (ha : a.thread ≠ some k) : Waits.Inside p' k := by
  obtain ⟨u, hu, hpc⟩ := Option.map_eq_some_iff.mp h
  have hlt := (List.getElem?_eq_some_iff.mp hu).1
  have hinside : p'.users[k]? = some u → Waits.Inside p' k := fun hu' => by
    rw [Waits.Inside, hu']
    exact congrArg some hpc
  cases a with
  | user j =>
    obtain ⟨v, -, hstep⟩ := Option.bind_eq_some_iff.mp hstep
    obtain ⟨pc, husers⟩ := users_of_stepUser hstep
    refine hinside ?_
    rw [husers, List.getElem?_set_ne fun heq => ha (congrArg some heq)]
    exact hu
  | create j t =>
    obtain ⟨v, -, hstep⟩ := Option.bind_eq_some_iff.mp hstep
    have hset : ∀ w : User, (p.users.set j w)[k]? = some u := fun w =>
      (List.getElem?_set_ne fun heq => ha (congrArg some heq)).trans hu
    split_ifs at hstep
    · refine hinside (Option.some.inj hstep ▸ ?_)
      exact (List.getElem?_append_left (by rw [List.length_set]; exact hlt)).trans (hset _)
    · exact hinside (Option.some.inj hstep ▸ hset _)
  | object j location state =>
    obtain ⟨v, -, hstep⟩ := Option.bind_eq_some_iff.mp hstep
    split_ifs at hstep
    exact hinside (Option.some.inj hstep ▸ hu)
  | wake j =>
    obtain ⟨v, -, hstep⟩ := Option.bind_eq_some_iff.mp hstep
    split at hstep
    · refine hinside (Option.some.inj hstep ▸ ?_)
      exact (List.getElem?_set_ne fun heq => ha (congrArg some heq)).trans hu
    · cases hstep
  | template =>
    obtain ⟨created, husers | husers⟩ := users_of_stepTemplate hstep
    · refine hinside ?_
      rw [husers, List.getElem?_append_left hlt, hu]
    · have hwoken : u.woken = u := by
        obtain ⟨t, pc⟩ := u
        obtain rfl : pc = .outside := hpc
        rfl
      refine hinside ?_
      rw [husers, List.getElem?_append_left (by rw [List.length_map]; exact hlt), List.getElem?_map, hu,
        Option.map_some, hwoken]

/-- What is taken stays taken. -/
theorem Waits.Excludes.step {waits : Waits} {s s' : State} {a : Action}
    (h : waits.Excludes s.restarted) (hallows : waits.Allows s a) (hstep : Restart.step a s = some s') :
    waits.Excludes s'.restarted := by
  cases a with
  | restarted a =>
    obtain ⟨p', hp', rfl⟩ := Option.map_eq_some_iff.mp hstep
    intro k m hk
    by_cases ha : a.thread = some k
    · -- the thread itself acts, and the others do not
      refine .inr ?_
      have hexcludes : m ∉ waits.kept ∧ ∀ k' ≠ k, waits.awaited k' = some m →
          Waits.Inside s.restarted k' := by
        rcases h k m hk with hinside | hexcludes
        · exact hallows k m ha hk hinside
        · exact hexcludes
      refine ⟨hexcludes.1, fun k' hne hk' => (hexcludes.2 k' hne hk').step hp' ?_⟩
      exact fun ha' => hne (Option.some.inj (ha'.symm.trans ha))
    · rcases h k m hk with hinside | ⟨hkept, hothers⟩
      · exact .inl (hinside.step hp' ha)
      · by_cases hk_inside : Waits.Inside s.restarted k
        · exact .inl (hk_inside.step hp' ha)
        · refine .inr ⟨hkept, fun k' hne hk' => (hothers k' hne hk').step hp' fun ha' => ?_⟩
          exact hk_inside ((hallows k' m ha' hk' (hothers k' hne hk')).2 k hne.symm hk)
  | branch i a =>
    obtain ⟨b, -, hstep⟩ := Option.bind_eq_some_iff.mp hstep
    obtain ⟨b', -, rfl⟩ := Option.map_eq_some_iff.mp hstep
    exact h
  | fork | forkFailed | death =>
    simp only [Restart.step] at hstep
    split_ifs at hstep
    exact Option.some.inj hstep ▸ h

/-! ### Whether the barrier is passed -/

/-- **A restart gets through its barrier**, in some order of the threads' steps, exactly if none of
them called `pthread_exit` while it was recorded, and each of them gets what it waits for in the
wrapper which it is in. -/
theorem exists_past_iff {pid : ℤ} {recorded : List RecordAction} {waits : Waits}
    (hfresh : HoldsAlong Recording.step Fresh (recordMainThread t) recorded)
    (hrecord : runFrom Recording.step (recordMainThread t) recorded = some r)
    (hsize : r.users.length ≤ maxThreadInfos)
    (hinside : ∀ k m, waits.awaited k = some m →
      Waits.Inside (start pid templateLoop r).restarted k) :
    (∃ actions s, HoldsAlong step (fun s a => Orderly s a ∧ waits.Allows s a)
        (start pid templateLoop r) actions ∧
      runFrom step (start pid templateLoop r) actions = some s ∧
      s.restarted.template.PastBarrier) ↔
    (∀ k, RecordAction.exit k ∉ recorded) ∧ waits.Served := by
  obtain ⟨hcheckpoint, -⟩ := atCheckpoint_of_run hfresh hrecord
  rw [← not_exists, ← departed_iff_of_run hrecord]
  constructor
  · rintro ⟨actions, s, hQ, hrun, hpast⟩
    have horderly := hQ.mono fun _ _ h => h.1
    have hregistered := (sound_of_run hcheckpoint horderly hrun).restarted
    -- behind the barrier everybody has checked in
    have hnotInside : ∀ k, ¬ Waits.Inside s.restarted k := by
      intro k hk
      obtain ⟨u, hu, hpc⟩ := Option.map_eq_some_iff.mp hk
      rcases hregistered.settled hpast hu with hpc' | ⟨l, place, hpc', -⟩ <;> rw [hpc] at hpc' <;>
        cases hpc'
    refine ⟨fun hdeparted => ?_, fun k m hk => ?_⟩
    -- a thread which has left stays where it is, and has not checked in
    · obtain ⟨u, hu, hleft⟩ := effect_invariant
        (fun _ _ _ heffect => (departed_of_effect heffect).mpr) hcheckpoint horderly hrun hdeparted
      obtain ⟨k, hk⟩ := List.mem_iff_getElem?.mp hu
      rcases hregistered.settled hpast hk with hpc | ⟨l, place, hpc, -⟩ <;> rw [hpc] at hleft <;>
        cases hleft
    · -- it has come out, hence nobody else waits for the same
      have hexcludes : waits.Excludes s.restarted := runFrom_invariant_along
        (P := fun s => waits.Excludes s.restarted) (fun _ _ _ h hQ hstep => h.step hQ.2 hstep)
        (fun k m hk => .inl (hinside k m hk)) hQ hrun
      obtain ⟨hkept, hothers⟩ := (hexcludes k m hk).resolve_left (hnotInside k)
      refine ⟨hkept, fun k' hk' => ?_⟩
      by_contra hne
      exact hnotInside k' (hothers k' hne hk')
  · rintro ⟨hstay, hserved⟩
    have hway : OnTheWay templateLoop (start pid templateLoop r).restarted :=
      ⟨(sound_start hcheckpoint).restarted,
        fun u hu => (Bool.not_eq_true _).mp fun hleft => hstay ⟨u, hu, hleft⟩, hsize, .inl rfl⟩
    -- some thread can act as long as the barrier has not been passed, and gets what it waits for
    have hprogress : ∀ s : State, OnTheWay templateLoop s.restarted →
        ¬ s.restarted.template.PastBarrier → ∃ a s', (Orderly s a ∧ waits.Allows s a) ∧
          step a s = some s' ∧ OnTheWay templateLoop s'.restarted ∧
          s'.restarted.distance < s.restarted.distance := by
      intro s hway hnot
      obtain ⟨a, p', horderly, hstep, hway', hlt⟩ := hway.exists_step s.branches hnot
      have hallows : waits.Allows s (.restarted a) := by
        intro k m _ hk _
        obtain ⟨hkept, honly⟩ := hserved k m hk
        exact ⟨hkept, fun k' hne hk' => absurd (honly k' hk') hne⟩
      refine ⟨.restarted a, { s with restarted := p' }, ⟨horderly, hallows⟩, ?_, hway', hlt⟩
      simp only [step, hstep, Option.map_some]
    obtain ⟨actions, s, horderly, hrun, -, hpast⟩ :=
      exists_run_of_progress (fun s : State => s.restarted.distance) hprogress hway
    exact ⟨actions, s, horderly, hrun, hpast⟩

/-- The main thread creates two threads. -/
private def untilBothRun : List RecordAction :=
  [.create 0 12, .user 1, .user 1, .user 1, .user 0, .create 0 13, .user 2, .user 2, .user 2,
    .user 0]

private theorem isSome_untilBothRun :
    (runFrom Recording.step (recordMainThread 11) untilBothRun).isSome = true := by
  decide +kernel

private def bothRunning : Recording :=
  (runFrom Recording.step (recordMainThread 11) untilBothRun).get isSome_untilBothRun

private theorem users_bothRunning :
    bothRunning.users = [⟨11, .outside⟩, ⟨12, .outside⟩, ⟨13, .outside⟩] := by decide +kernel

/-- The threads from `n` on wait on a condition variable with the mutex `8`. -/
private def waitingFrom (n : ℕ) : Waits where
  awaited k := if n ≤ k ∧ k ≤ 2 then some 8 else none
  kept := ∅

private theorem awaited_waitingFrom {n m : ℕ} (h : (waitingFrom n).awaited k = some m) :
    (n ≤ k ∧ k ≤ 2) ∧ m = 8 := by
  have h' : (if n ≤ k ∧ k ≤ 2 then some 8 else none) = some m := h
  split_ifs at h' with hk
  exact ⟨hk, (Option.some.inj h').symm⟩

/-- A thread which waits alone takes the mutex back, and is parked. Of two the second one does not
come out. -/
theorem exists_past_iff_waiting :
    (∃ actions s, HoldsAlong step (fun s a => Orderly s a ∧ (waitingFrom 2).Allows s a)
        (start 5 true bothRunning) actions ∧
      runFrom step (start 5 true bothRunning) actions = some s ∧ s.restarted.template.PastBarrier) ∧
    ¬ ∃ actions s, HoldsAlong step (fun s a => Orderly s a ∧ (waitingFrom 1).Allows s a)
        (start 5 true bothRunning) actions ∧
      runFrom step (start 5 true bothRunning) actions = some s ∧ s.restarted.template.PastBarrier := by
  have hrecord : runFrom Recording.step (recordMainThread 11) untilBothRun = some bothRunning :=
    (Option.some_get isSome_untilBothRun).symm
  have hsize : bothRunning.users.length ≤ maxThreadInfos := by
    rw [users_bothRunning]
    decide
  have hinside : ∀ n k m, (waitingFrom n).awaited k = some m →
      Waits.Inside (start 5 true bothRunning).restarted k := by
    intro n k m hk
    obtain ⟨⟨-, hle⟩, -⟩ := awaited_waitingFrom hk
    show (bothRunning.users[k]?).map (·.pc) = some .outside
    rw [users_bothRunning]
    obtain rfl | rfl | rfl : k = 0 ∨ k = 1 ∨ k = 2 := by omega
    · rfl
    · rfl
    · rfl
  have hexit : ∀ k, RecordAction.exit k ∉ untilBothRun := by
    intro k
    simp [untilBothRun]
  constructor
  · refine (exists_past_iff (by decide +kernel) hrecord hsize (hinside 2)).mpr ⟨hexit, fun k m hk => ?_⟩
    obtain ⟨⟨hge, hle⟩, -⟩ := awaited_waitingFrom hk
    refine ⟨Set.notMem_empty m, fun k' hk' => ?_⟩
    obtain ⟨⟨hge', hle'⟩, -⟩ := awaited_waitingFrom hk'
    omega
  · rw [exists_past_iff (by decide +kernel) hrecord hsize (hinside 1)]
    rintro ⟨-, hserved⟩
    exact absurd ((hserved 1 8 rfl).2 2 rfl) (by decide)

end McMini.Restart
