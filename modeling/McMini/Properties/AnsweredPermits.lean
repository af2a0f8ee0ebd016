import McMini.Foundation.Runs
import McMini.RealWorld.TargetThread

/-!
# Every permit is answered

A thread of the target and McMini keep to the protocol of a handshake, in which McMini is the
client: it requests with a permit, the thread accepts by consuming the permit and answers by its
report. The thread does not wait, block or end while it owes an answer, and what it reports
describes the operation its call stands for (`State.KeepsHandshake`).

That a list of instructions keeps the protocol is a property of the list alone, given what the
thread owes when it comes to it (`Fulfils`). The wrappers have it, apart from the return from a
start routine after a restart: there the thread checks in, and after the permit waits for another
one without having reported (`not_keepsHandshake_of_returning`).

A thread which is about to abort the program reports that twice, and ends without a report when it
gets a permit after that. The exploration stops at the first of these reports, but a round which
follows a backtracking does not look at them. So one of the conditions is on McMini: it gives no
permit after the second (`Proper`).
-/

namespace McMini.TargetThread

open Foundation

variable {t : Thread} {mode : Mode} {c : Call} {contents : MailboxContents} {code : List Instr}

/-! ### The protocol -/

def Event.handshake : Event → Option (Handshake.Event (Option MailboxContents))
  | .executeRunner => some .request
  | .permit => some .accept
  | .report contents => some (.answer contents)
  | .returned contents => some (.receive contents)
  | .rest _ => some .rest
  | .call _ | .checkIn _ => none

def State.handshakes (s : State) : List (Handshake.Event (Option MailboxContents)) :=
  s.log.filterMap Event.handshake

/-- The operation which a call stands for, in each of its rounds. A thread which exits goes on
to report that. -/
def Call.operation : Call → ℕ → Option MailboxContents
  | .mutexInit mutex _, 0 => some (.mutexInit mutex)
  | .mutexLock mutex isStatic, 0 => some (.mutexLock mutex isStatic)
  | .mutexUnlock mutex, 0 => some (.mutexUnlock mutex)
  | .condInit cond, 0 => some (.condInit cond)
  | .condWait cond mutex isStatic, 0 => some (.condEnqueue cond mutex isStatic)
  | .condWait cond mutex _, 1 => some (.condWait cond mutex)
  | .condSignal cond isStatic, 0 => some (.condSignal cond isStatic)
  | .condBroadcast cond isStatic, 0 => some (.condBroadcast cond isStatic)
  | .condDestroy cond, 0 => some (.condDestroy cond)
  | .semInit sem count, 0 => some (.semInit sem count)
  | .semPost sem, 0 => some (.semPost sem)
  | .semWait sem, 0 => some (.semWait sem)
  | .semDestroy sem, 0 => some (.semDestroy sem)
  | .create thread, 0 => some (.threadCreate thread)
  | .join _ entry, 0 => some (.threadJoin ((entry.map (·.value)).getD ridInvalid))
  | .pthreadExit, _ | .returns, _ => some .threadExit
  | .exit status, _ => some (.processExit status)
  | .abort, _ => some .processAbort
  | _, _ => none

/-- The call which is being made, and how often the thread has reported or checked in since. -/
def progress (log : List Event) : Option (Call × ℕ) :=
  log.foldl (fun progress e =>
    match e with
    | .call c => some (c, 0)
    | .report _ | .checkIn _ => progress.map fun p => (p.1, p.2 + 1)
    | _ => progress) none

/-- What the thread has to report next. -/
def due (log : List Event) : Option MailboxContents :=
  (progress log).bind fun p => p.1.operation p.2

/-- What is told to McMini after the history. -/
def Tells (log : List Event) : Event → Prop
  | .report contents => contents.isSome ∧ due log = contents
  | .checkIn contents => contents.isSome ∧ due log = contents ∧ .permit ∉ log
  | _ => True

/-- The thread and McMini have kept to the handshake. -/
structure State.KeepsHandshake (s : State) : Prop where
  /-- Permits and reports alternate, and the thread rests only when it owes no report. -/
  keeps : Handshake.Keeps s.handshakes
  /-- A report describes the operation of the call, and so does a check-in, which precedes every
  permit. -/
  tells : ∀ log e, log ++ [e] <+: s.log → Tells log e
  /-- No permit and no report is left over between two calls of `execute_runner`. -/
  settled : s.executing = false → s.childSideSem = 0 ∧ s.modelSideSem = 0
  /-- Each of them has had its permit consumed and answered by one report. -/
  answered : s.executing = false →
    s.handshakes.count .accept = s.handshakes.count .request ∧
      s.handshakes.countP Handshake.Event.isAnswer = s.handshakes.count .request ∧
      s.handshakes.countP Handshake.Event.isReceive = s.handshakes.count .request

/-! ### When it is kept -/

/-- The assertions in the wrapper hold: only normal mutexes are initialized, and only threads are
joined which are in the `pthread_map`. -/
def Call.asserted : Call → Bool
  | .mutexInit _ normal => normal
  | .join _ entry => entry.isSome
  | _ => true

/-- The report is that the program is about to end abnormally. -/
def Event.reportsEnd : Event → Bool
  | .report contents => contents.any endsAbnormally
  | _ => false

/-- How often the thread has reported that the program is about to end abnormally. -/
def endings (log : List Event) : ℕ := log.countP Event.reportsEnd

/-- McMini has let the thread run. -/
def State.Started (s : State) : Prop := .permit ∈ s.log

instance (s : State) : Decidable s.Started := inferInstanceAs (Decidable (_ ∈ _))

/-- The action does not make the thread break the protocol. -/
def Proper (s : State) : Action → Prop
  | .call c =>
    if s.mode.isInRestartMode then c ≠ .returns
    else c.asserted ∧ (s.mode = .targetBranchAfterRestart → s.Started)
  | .createFails => s.mode.isInRestartMode
  | .hangs => False
  | .executeRunner => endings s.log ≤ 1
  | .advance | .changeMode | .receive => True

instance (s : State) : (act : Action) → Decidable (Proper s act)
  | .call c => inferInstanceAs (Decidable (if s.mode.isInRestartMode then c ≠ .returns
      else c.asserted ∧ (s.mode = .targetBranchAfterRestart → s.Started)))
  | .createFails => inferInstanceAs (Decidable (s.mode.isInRestartMode = true))
  | .hangs => .isFalse id
  | .executeRunner => inferInstanceAs (Decidable (endings s.log ≤ 1))
  | .advance | .changeMode | .receive => .isTrue trivial

/-! ### What a list of instructions owes -/

/-- What decides whether a list of instructions keeps the protocol. -/
structure View where
  /-- A permit has been consumed and not been answered. -/
  owing : Bool
  started : Bool
  /-- The mode is `TARGET_BRANCH`. -/
  classic : Bool
  mailbox : Option MailboxContents
  progress : Option (Call × ℕ)
  /-- The pending operation, once McMini has received the last report. -/
  pending : Option MailboxContents
  /-- Whether McMini will have retired the runner then. -/
  retired : Bool
  /-- The reports that the program is about to end abnormally. -/
  endings : ℕ

namespace View

/-- The mailbox describes the operation. -/
def Describes (v : View) : Prop :=
  v.mailbox.isSome ∧ (v.progress.bind fun p => p.1.operation p.2) = v.mailbox

def write (v : View) (contents : MailboxContents) : View := { v with mailbox := some contents }

def tell (v : View) : View :=
  { v with
    progress := v.progress.map fun p => (p.1, p.2 + 1)
    pending := v.mailbox }

def report (v : View) : View :=
  { v.tell with
    owing := false
    retired := v.pending.any exits
    endings := v.endings + if v.mailbox.any endsAbnormally then 1 else 0 }

/-- There is no other permit. -/
def Finished (v : View) : Prop := v.retired = true ∨ 2 ≤ v.endings

def permit (v : View) : View := { v with owing := true, started := true }

/-- The thread may go on with the program. -/
def Settled (v : View) : Prop := v.owing = v.started ∧ (v.classic → v.started)

end View

/-- The protocol is kept when the instructions are executed. -/
def Fulfils : List Instr → View → Prop
  | [], v => v.Settled
  | .write contents :: code, v =>
    (v.owing ∨ v.started = false) ∧ Fulfils code (v.write contents)
  | .wakeScheduler :: code, v => v.owing ∧ v.Describes ∧ Fulfils code v.report
  | .notifyTemplateThread :: code, v =>
    v.owing = false ∧ v.started = false ∧ v.Describes ∧ Fulfils code v.tell
  | .rest _ :: code, v => v.owing = false ∧ Fulfils code v
  | .waitForScheduler :: code, v =>
    v.owing = false ∧ (¬ v.Finished → Fulfils code v.permit)
  | .assert holds :: code, v => if holds then Fulfils code v else v.owing = false
  | .waitForBranch :: code, v | .waitForExitPermission :: code, v | .lib _ :: code, v
  | .create :: code, v => Fulfils code v
  | .stop :: _, _ => True

/-! ### The wrappers keep the protocol -/

variable {v : View}

/-- After the report the thread goes on once there is another permit. -/
theorem fulfils_threadWakeSchedulerAndWait (howing : v.owing = true) (hdescribes : v.Describes)
    (hcode : ¬ v.report.Finished → Fulfils code v.report.permit) :
    Fulfils (threadWakeSchedulerAndWait ++ code) v :=
  ⟨howing, hdescribes, rfl, rfl, hcode⟩

/-- There is none after the exit of the thread, or after the second report of an abort. -/
theorem fulfils_of_finished (howing : v.owing = true) (hdescribes : v.Describes)
    (hfinished : v.report.Finished) : Fulfils (threadWakeSchedulerAndWait ++ code) v :=
  fulfils_threadWakeSchedulerAndWait howing hdescribes fun h => absurd hfinished h

/-- After the check-in, too. -/
theorem fulfils_threadHandleAfterDmtcpRestart (hmode : mode.isInRestartMode = true)
    (howing : v.owing = false) (hstarted : v.started = false) (hdescribes : v.Describes)
    (hcode : Fulfils code v.tell.permit) :
    Fulfils (threadHandleAfterDmtcpRestart mode ++ code) v := by
  have htell : v.tell.owing = false := howing
  cases mode with
  | targetBranch | targetBranchAfterRestart => exact absurd hmode (by decide)
  | dmtcpRestartIntoBranch =>
    exact ⟨howing, hstarted, hdescribes, htell, htell, fun _ => hcode⟩
  | dmtcpRestartIntoTemplate =>
    exact ⟨howing, hstarted, hdescribes, htell, htell, htell, fun _ => hcode⟩

/-- How a thread comes to a call: after a restart it has not been let run yet. -/
structure View.Calls (v : View) (mode : Mode) : Prop where
  owing : v.owing = !mode.isInRestartMode
  started : v.started = !mode.isInRestartMode

/-- How it goes on after it has told McMini the first operation. -/
structure View.Goes (v : View) (c : Call) (contents : MailboxContents) : Prop where
  owing : v.owing = true
  started : v.started = true
  progress : v.progress = some (c, 1)
  pending : v.pending = some contents

theorem View.Goes.settled {v : View} (h : v.Goes c contents) : v.Settled :=
  ⟨h.owing.trans h.started.symm, fun _ => h.started⟩

theorem View.Calls.mayWrite (h : v.Calls mode) : v.owing = true ∨ v.started = false := by
  rw [h.owing, h.started]
  cases mode.isInRestartMode <;> simp

theorem View.describes_write {n : ℕ} (hprogress : v.progress = some (c, n))
    (hop : c.operation n = some contents) : (v.write contents).Describes := by
  refine ⟨rfl, ?_⟩
  rw [View.write, hprogress]
  exact hop

/-- The first round of a wrapper. -/
theorem fulfils_visibleOperation (h : v.Calls mode) (hprogress : v.progress = some (c, 0))
    (hop : c.operation 0 = some contents)
    (hcode : ∀ v : View, v.Goes c contents → Fulfils code v) :
    Fulfils (visibleOperation mode contents ++ code) v := by
  have hdescribes := View.describes_write hprogress hop
  have hnext : (v.write contents).tell.progress = some (c, 1) := by
    rw [View.tell, View.write, hprogress]
    rfl
  refine ⟨h.mayWrite, ?_⟩
  by_cases hmode : mode.isInRestartMode
  · rw [if_pos hmode]
    refine fulfils_threadHandleAfterDmtcpRestart hmode ?_ ?_ hdescribes ?_
    · exact h.owing.trans (by rw [hmode]; rfl)
    · exact h.started.trans (by rw [hmode]; rfl)
    · exact hcode _ ⟨rfl, rfl, hnext, rfl⟩
  · rw [if_neg hmode]
    refine fulfils_threadWakeSchedulerAndWait ?_ hdescribes fun _ => ?_
    · exact h.owing.trans (by simpa using hmode)
    · exact hcode _ ⟨rfl, rfl, hnext, rfl⟩

/-- What a wrapper does then calls functions of the thread library. -/
theorem fulfils_lib {fs : List LibCall} (h : v.Settled) : Fulfils (fs.map .lib) v := by
  induction fs with
  | nil => exact h
  | cons f fs ih => exact ih

/-- A wrapper with one round. -/
theorem fulfils_of_lib (fs : List LibCall) (h : v.Calls mode)
    (hprogress : v.progress = some (c, 0)) (hop : c.operation 0 = some contents) :
    Fulfils (visibleOperation mode contents ++ fs.map .lib) v :=
  fulfils_visibleOperation h hprogress hop fun _ hgoes => fulfils_lib hgoes.settled

/-- The real condition variables are not touched. -/
theorem fulfils_of_visible (h : v.Calls mode) (hprogress : v.progress = some (c, 0))
    (hop : c.operation 0 = some contents) : Fulfils (visibleOperation mode contents) v := by
  rw [← List.append_nil (visibleOperation mode contents)]
  exact fulfils_visibleOperation h hprogress hop fun _ hgoes => hgoes.settled

/-- A process which is aborted by the assertion owes nothing. -/
theorem fulfils_mcPthreadMutexInit {mutex : Addr} {normal : Bool} (h : v.Calls mode)
    (hprogress : v.progress = some (.mutexInit mutex normal, 0))
    (hnormal : mode.isInRestartMode = false → normal = true) :
    Fulfils (mcPthreadMutexInit mode mutex normal) v := by
  cases normal with
  | true => exact fulfils_of_lib [.mutexInit mutex] h hprogress rfl
  | false =>
    have hmode : mode.isInRestartMode = true := by
      by_contra hmode
      exact Bool.false_ne_true (hnormal (Bool.eq_false_of_not_eq_true hmode))
    exact h.owing.trans (by rw [hmode]; rfl)

theorem View.settled_permit (v : View) : v.permit.Settled := ⟨rfl, fun _ => rfl⟩

/-- The second round follows the first permit. -/
theorem fulfils_mcPthreadCondWait {cond mutex : Addr} {isStatic : Bool} (h : v.Calls mode)
    (hprogress : v.progress = some (.condWait cond mutex isStatic, 0)) :
    Fulfils (mcPthreadCondWait mode cond mutex isStatic) v := by
  rw [mcPthreadCondWait, List.append_assoc, List.append_assoc]
  refine fulfils_visibleOperation h hprogress rfl fun v hgoes => ?_
  refine ⟨.inl hgoes.owing, ?_⟩
  refine fulfils_threadWakeSchedulerAndWait hgoes.owing ?_ fun _ => View.settled_permit _
  exact View.describes_write hgoes.progress rfl

theorem fulfils_mcPthreadCreate {thread : Addr} (h : v.Calls mode)
    (hprogress : v.progress = some (.create thread, 0)) (hsettled : v.Settled) :
    Fulfils (mcPthreadCreate mode thread) v := by
  rw [mcPthreadCreate]
  by_cases hmode : mode.isInRestartMode
  · rw [if_pos hmode]
    exact hsettled
  · have howing : v.owing = true := h.owing.trans (by simpa using hmode)
    rw [if_neg hmode, ← List.append_nil threadWakeSchedulerAndWait]
    refine ⟨.inl howing, ?_⟩
    refine fulfils_threadWakeSchedulerAndWait howing ?_ fun _ => View.settled_permit _
    exact View.describes_write hprogress rfl

theorem fulfils_realJoin {thread : Addr} {entry : Option PthreadMapEntry}
    (hentry : mode.isInRestartMode = false → entry.isSome) (h : v.Settled) :
    Fulfils (realJoin mode thread entry) v := by
  cases mode with
  | targetBranch => exact (if_pos (hentry rfl)).mpr h
  | targetBranchAfterRestart =>
    refine (if_pos (hentry rfl)).mpr ?_
    change Fulfils (if _ then _ else _) v
    split_ifs <;> exact h
  | dmtcpRestartIntoBranch | dmtcpRestartIntoTemplate => exact h

/-- The cases which fall through: in either case there is a permit to be answered. -/
theorem fulfils_checkInFirst (h : v.Calls mode) (hprogress : v.progress = some (c, 0))
    (hop : c.operation 0 = some contents)
    (hcode : ∀ (v : View) (n : ℕ), v.owing = true → v.progress = some (c, n) → Fulfils code v) :
    Fulfils (checkInFirst mode contents ++ code) v := by
  rw [checkInFirst]
  by_cases hmode : mode.isInRestartMode
  · have hvisible := fulfils_visibleOperation h hprogress hop
      fun v hgoes => hcode v 1 hgoes.owing hgoes.progress
    rw [visibleOperation, if_pos hmode] at hvisible
    rw [if_pos hmode]
    exact hvisible
  · rw [if_neg hmode]
    exact hcode v 0 (h.owing.trans (by simpa using hmode)) hprogress

section Exits

variable {n : ℕ}

/-- The exit is reported once more when the thread is let run, and it is never let run again. -/
theorem fulfils_mcExitThreadInChild (howing : v.owing = true) (hprogress : v.progress = some (c, n))
    (hop : ∀ n, c.operation n = some .threadExit) :
    Fulfils (mcExitThreadInChild ++ [.rest .ends, .stop]) v := by
  rw [mcExitThreadInChild, List.cons_append, List.cons_append, List.append_assoc]
  have hdescribes := View.describes_write hprogress (hop n)
  refine ⟨.inl howing, fulfils_threadWakeSchedulerAndWait howing hdescribes fun _ => ?_⟩
  refine ⟨rfl, ⟨rfl, ?_⟩, rfl, rfl, trivial⟩
  change (v.progress.map _).bind _ = _
  rw [hprogress]
  exact hop (n + 1)

theorem fulfils_mcExitMainThreadInChild (hmain : t.main = true) (howing : v.owing = true)
    (hprogress : v.progress = some (c, n)) (hop : ∀ n, c.operation n = some .threadExit) :
    Fulfils (mcExitMainThreadInChild t ++ [.rest .ends, .stop]) v := by
  rw [mcExitMainThreadInChild, if_pos hmain, List.cons_append, List.cons_append, List.append_assoc]
  have hdescribes := View.describes_write hprogress (hop n)
  refine ⟨.inl howing, fulfils_threadWakeSchedulerAndWait howing hdescribes fun _ => ?_⟩
  refine ⟨.inl rfl, rfl, ⟨rfl, ?_⟩, rfl, trivial⟩
  change (v.progress.map _).bind _ = _
  rw [hprogress]
  exact hop (n + 1)

theorem fulfils_mcPthreadExit (h : v.Calls mode) (hprogress : v.progress = some (.pthreadExit, 0)) :
    Fulfils (mcPthreadExit t mode) v := by
  rw [mcPthreadExit, List.append_assoc]
  refine fulfils_checkInFirst h hprogress rfl fun v n howing hprogress => ?_
  by_cases hmain : t.main = true
  · rw [if_pos hmain]
    exact fulfils_mcExitMainThreadInChild hmain howing hprogress fun _ => rfl
  · rw [if_neg hmain]
    exact fulfils_mcExitThreadInChild howing hprogress fun _ => rfl

/-- The end of the process is reported twice, and McMini does not give a permit after that. -/
theorem fulfils_end (howing : v.owing = true) (hprogress : v.progress = some (c, n))
    (hop : ∀ n, c.operation n = some contents) (hend : exits contents ∨ endsAbnormally contents) :
    Fulfils (.write contents :: threadWakeSchedulerAndWait ++
      (.write contents :: threadWakeSchedulerAndWait ++ code)) v := by
  have hdescribes := View.describes_write hprogress (hop n)
  refine ⟨.inl howing, fulfils_threadWakeSchedulerAndWait howing hdescribes fun _ => ?_⟩
  refine ⟨.inl rfl, fulfils_of_finished rfl ⟨rfl, ?_⟩ ?_⟩
  · change (v.progress.map _).bind _ = _
    rw [hprogress]
    exact hop (n + 1)
  · rcases hend with hexits | hends
    · exact .inl hexits
    · -- the two reports
      refine .inr ?_
      change 2 ≤ v.endings + (if endsAbnormally contents then 1 else 0) +
        if endsAbnormally contents then 1 else 0
      rw [if_pos hends]
      omega

theorem fulfils_mcTransparentExit {status : ℤ} (h : v.Calls mode)
    (hprogress : v.progress = some (.exit status, 0)) :
    Fulfils (mcTransparentExit t mode status) v := by
  rw [mcTransparentExit, List.append_assoc, List.append_assoc]
  refine fulfils_checkInFirst h hprogress rfl fun v n howing hprogress => ?_
  exact fulfils_end howing hprogress (fun _ => rfl) (.inl rfl)

theorem fulfils_mcTransparentAbort (h : v.Calls mode) (hprogress : v.progress = some (.abort, 0)) :
    Fulfils (mcTransparentAbort mode) v := by
  rw [mcTransparentAbort, List.append_assoc, List.append_assoc]
  refine fulfils_checkInFirst h hprogress rfl fun v n howing hprogress => ?_
  exact fulfils_end howing hprogress (fun _ => rfl) (.inr rfl)

theorem fulfils_mcThreadRoutineReturn (hmode : mode.isInRestartMode = false) (h : v.Calls mode)
    (hprogress : v.progress = some (.returns, 0)) : Fulfils (mcThreadRoutineReturn mode) v := by
  rw [mcThreadRoutineReturn, if_neg (by simp [hmode])]
  exact fulfils_mcExitThreadInChild (h.owing.trans (by simp [hmode])) hprogress fun _ => rfl

end Exits

/-- Every wrapper keeps the protocol, in every mode, but for the return from a start routine after
a restart. -/
theorem fulfils_code (h : v.Calls mode) (hsettled : v.Settled)
    (hprogress : v.progress = some (c, 0))
    (hasserted : mode.isInRestartMode = false → c.asserted)
    (hreturns : mode.isInRestartMode = true → c ≠ .returns) : Fulfils (c.code t mode) v := by
  cases c with
  | mutexInit mutex normal => exact fulfils_mcPthreadMutexInit h hprogress hasserted
  | mutexLock mutex isStatic => exact fulfils_of_lib [.mutexLock mutex] h hprogress rfl
  | mutexUnlock mutex => exact fulfils_of_lib [.mutexUnlock mutex] h hprogress rfl
  | condWait cond mutex isStatic => exact fulfils_mcPthreadCondWait h hprogress
  | condInit | condSignal | condBroadcast | condDestroy =>
    exact fulfils_of_visible h hprogress rfl
  | semInit sem count => exact fulfils_of_lib [.semInit sem count] h hprogress rfl
  | semPost sem | semWait sem => exact fulfils_of_lib [.semPost sem] h hprogress rfl
  | semDestroy sem => exact fulfils_of_lib [.semDestroy sem] h hprogress rfl
  | sleep => exact hsettled
  | create thread => exact fulfils_mcPthreadCreate h hprogress hsettled
  | join thread entry =>
    exact fulfils_visibleOperation h hprogress rfl fun v hgoes =>
      fulfils_realJoin hasserted hgoes.settled
  | pthreadExit => exact fulfils_mcPthreadExit h hprogress
  | exit status => exact fulfils_mcTransparentExit h hprogress
  | abort => exact fulfils_mcTransparentAbort h hprogress
  | returns =>
    have hmode : mode.isInRestartMode = false := by
      by_contra hrestart
      exact hreturns (Bool.eq_true_of_not_eq_false hrestart) rfl
    exact fulfils_mcThreadRoutineReturn hmode h hprogress

/-! ### What a run preserves -/

/-- The phase of the handshake. -/
def State.phase (s : State) : Handshake.Phase (Option MailboxContents) :=
  if s.executing then
    if 0 < s.childSideSem then .requested
    else if 0 < s.modelSideSem then .answered s.mailbox
    else .owing
  else .idle

def State.owing (s : State) : Bool :=
  s.executing && s.childSideSem == 0 && s.modelSideSem == 0

/-- What the remaining instructions may rely on. -/
def State.view (s : State) : View where
  owing := s.owing
  started := s.log.contains .permit
  classic := s.mode = .targetBranch
  mailbox := s.mailbox
  progress := progress s.log
  pending := if 0 < s.modelSideSem then s.mailbox else s.pending
  retired := if 0 < s.modelSideSem then s.pending.any exits else s.retired
  endings := endings s.log

/-- The invariant. -/
structure Invariant (s : State) : Prop where
  keeps : runFrom Handshake.step .idle s.handshakes = some s.phase
  tells : ∀ log e, log ++ [e] <+: s.log → Tells log e
  units : s.childSideSem + s.modelSideSem ≤ if s.executing then 1 else 0
  /-- Between the permit and the return of `execute_runner`, the thread has been let run. -/
  started : s.executing = true → s.childSideSem = 0 → .permit ∈ s.log
  restart : s.mode.isInRestartMode = true → s.executing = false ∧ .permit ∉ s.log
  /-- McMini does not execute a runner which it has retired. -/
  retired : s.executing = true → s.retired = false
  /-- Of the permits after a report of an abort, one is answered. -/
  ended : s.executing = true → s.modelSideSem = 0 → endings s.log ≤ 1
  fulfils : Fulfils s.code s.view

theorem handshakes_concat (log : List Event) (e : Event) :
    (log ++ [e]).filterMap Event.handshake =
      log.filterMap Event.handshake ++ e.handshake.toList := by
  rw [List.filterMap_append]
  cases h : e.handshake <;> simp [h]

theorem progress_concat (log : List Event) (e : Event) :
    progress (log ++ [e]) =
      match e with
      | .call c => some (c, 0)
      | .report _ | .checkIn _ => (progress log).map fun p => (p.1, p.2 + 1)
      | _ => progress log := by
  rw [progress, List.foldl_append]
  rfl

/-- Nothing but a report adds to the number. -/
theorem endings_concat (log : List Event) (e : Event) :
    endings (log ++ [e]) = endings log + if e.reportsEnd then 1 else 0 := by
  rw [endings, List.countP_append, List.countP_singleton]
  rfl

theorem runFrom_handshakes_concat {s : State} {e : Event}
    {event : Handshake.Event (Option MailboxContents)}
    {phase : Handshake.Phase (Option MailboxContents)}
    (h : runFrom Handshake.step .idle s.handshakes = some s.phase)
    (hevent : e.handshake = some event) (hstep : Handshake.step event s.phase = some phase) :
    runFrom Handshake.step .idle ((s.log ++ [e]).filterMap Event.handshake) = some phase := by
  rw [handshakes_concat, hevent]
  exact runFrom_concat_eq_some.mpr ⟨s.phase, h, hstep⟩

/-- A call and a check-in are not part of the handshake. -/
theorem runFrom_handshakes_of_none {s : State} {e : Event}
    (h : runFrom Handshake.step .idle s.handshakes = some s.phase) (hevent : e.handshake = none) :
    runFrom Handshake.step .idle ((s.log ++ [e]).filterMap Event.handshake) = some s.phase := by
  rw [handshakes_concat, hevent, Option.toList_none, List.append_nil]
  exact h

variable {s s' : State}

theorem owing_eq_true_iff :
    s.owing = true ↔ s.executing = true ∧ s.childSideSem = 0 ∧ s.modelSideSem = 0 := by
  rw [State.owing, Bool.and_eq_true, Bool.and_eq_true, beq_iff_eq, beq_iff_eq, and_assoc]

theorem phase_eq_owing (h : s.owing = true) : s.phase = .owing := by
  obtain ⟨hexecuting, hchild, hmodel⟩ := owing_eq_true_iff.mp h
  rw [State.phase, if_pos hexecuting, if_neg (by omega), if_neg (by omega)]

theorem phase_ne_owing (h : s.owing = false) : s.phase ≠ .owing := by
  intro hphase
  rw [State.phase] at hphase
  split_ifs at hphase with hexecuting hchild hmodel
  have howing : s.owing = true := owing_eq_true_iff.mpr ⟨hexecuting, by omega, by omega⟩
  exact absurd (howing.symm.trans h) (by decide)

theorem invariant_start (mode : Mode) : Invariant (start mode) where
  keeps := rfl
  tells := fun log e h => absurd (List.prefix_nil.mp h) (by simp)
  units := by simp [start]
  started := nofun
  restart := fun _ => ⟨rfl, List.not_mem_nil⟩
  retired := nofun
  ended := nofun
  fulfils := by
    cases mode with
    | targetBranch | targetBranchAfterRestart => exact ⟨rfl, rfl, fun _ => ⟨rfl, fun _ => rfl⟩⟩
    | dmtcpRestartIntoBranch | dmtcpRestartIntoTemplate => exact ⟨rfl, nofun⟩

theorem step_rest {α : Type*} [DecidableEq α] {phase : Handshake.Phase α} (h : phase ≠ .owing) :
    Handshake.step .rest phase = some phase := by
  cases phase with
  | owing => exact absurd rfl h
  | idle | requested | answered a => rfl

/-- A thread which writes its mailbox has no report there which McMini has not received. -/
theorem Invariant.modelSideSem_eq_zero (h : Invariant s)
    (hwrite : s.owing = true ∨ s.log.contains .permit = false) : s.modelSideSem = 0 := by
  have hunits := h.units
  rcases hwrite with howing | hstarted
  · exact (owing_eq_true_iff.mp howing).2.2
  · have hnot : .permit ∉ s.log := by simpa using hstarted
    by_cases hexecuting : s.executing = true
    · have hchild : s.childSideSem ≠ 0 := fun hchild => hnot (h.started hexecuting hchild)
      rw [if_pos hexecuting] at hunits
      omega
    · rw [if_neg hexecuting] at hunits
      omega

theorem Invariant.setCode (h : Invariant s) (hcode : Fulfils code s.view) :
    Invariant { s with code := code } :=
  ⟨h.keeps, h.tells, h.units, h.started, h.restart, h.retired, h.ended, hcode⟩

theorem Invariant.write (h : Invariant s) (hcode : Fulfils (.write contents :: code) s.view) :
    Invariant { s with code := code, mailbox := some contents } := by
  obtain ⟨hwrite, hcode⟩ := hcode
  have hmodel := h.modelSideSem_eq_zero hwrite
  refine ⟨?_, h.tells, h.units, h.started, h.restart, h.retired, h.ended, ?_⟩
  · have hphase : ({ s with code := code, mailbox := some contents } : State).phase = s.phase := by
      simp only [State.phase, hmodel, lt_irrefl, if_false]
    rw [hphase]
    exact h.keeps
  · have hview : ({ s with code := code, mailbox := some contents } : State).view =
        s.view.write contents := by
      simp only [State.view, View.write, hmodel, lt_irrefl, if_false, State.owing]
    rw [hview]
    exact hcode

theorem mem_concat_of_mem {log : List Event} {e : Event} (h : .permit ∈ log) :
    .permit ∈ log ++ [e] :=
  List.mem_append_left _ h

theorem Invariant.tells_concat (h : Invariant s) {e : Event} (he : Tells s.log e) :
    ∀ log e', log ++ [e'] <+: s.log ++ [e] → Tells log e' :=
  forall_prefix_concat.mpr ⟨h.tells, he⟩

/-- After a restart the thread is not let run before the mode changes. -/
theorem Invariant.restart_concat (h : Invariant s) {e : Event} (he : e ≠ .permit)
    (hmode : s.mode.isInRestartMode = true) :
    s.executing = false ∧ .permit ∉ s.log ++ [e] := by
  obtain ⟨hexecuting, hnot⟩ := h.restart hmode
  refine ⟨hexecuting, fun hmem => ?_⟩
  rcases List.mem_append.mp hmem with hmem | hmem
  · exact hnot hmem
  · exact he (List.mem_singleton.mp hmem).symm

/-- What is not a report leaves their number as it is. -/
theorem Invariant.ended_concat (h : Invariant s) {e : Event} (he : e.reportsEnd = false)
    (hexecuting : s.executing = true) (hmodel : s.modelSideSem = 0) :
    endings (s.log ++ [e]) ≤ 1 := by
  rw [endings_concat, he, if_neg Bool.false_ne_true]
  exact h.ended hexecuting hmodel

/-- The thread reports. -/
theorem Invariant.wakeScheduler (h : Invariant s)
    (hcode : Fulfils (.wakeScheduler :: code) s.view) :
    Invariant { s with
      code := code
      modelSideSem := s.modelSideSem + 1
      log := s.log ++ [.report s.mailbox] } := by
  obtain ⟨howing, hdescribes, hcode⟩ := hcode
  obtain ⟨hexecuting, hchild, hmodel⟩ := owing_eq_true_iff.mp howing
  refine ⟨?_, h.tells_concat hdescribes, ?_, ?_, ?_, h.retired,
    fun _ hzero => absurd hzero (Nat.succ_ne_zero _), ?_⟩
  · refine runFrom_handshakes_concat h.keeps rfl ?_
    rw [phase_eq_owing howing, State.phase, if_pos hexecuting, if_neg (by simp [hchild]),
      if_pos (Nat.succ_pos _)]
    rfl
  · change s.childSideSem + (s.modelSideSem + 1) ≤ if s.executing then 1 else 0
    rw [if_pos hexecuting]
    omega
  · exact fun _ _ => mem_concat_of_mem (h.started hexecuting hchild)
  · exact fun hmode => absurd (hexecuting.symm.trans (h.restart hmode).1) (by decide)
  · have hview : State.view { s with
        code := code
        modelSideSem := s.modelSideSem + 1
        log := s.log ++ [.report s.mailbox] } = s.view.report := by
      have hendings : endings (s.log ++ [.report s.mailbox]) =
          endings s.log + if s.mailbox.any endsAbnormally then 1 else 0 := endings_concat _ _
      simp [State.view, View.report, View.tell, hmodel, State.owing, progress_concat, hendings]
    rw [hview]
    exact hcode

/-- The thread checks in. -/
theorem Invariant.notifyTemplateThread (h : Invariant s)
    (hcode : Fulfils (.notifyTemplateThread :: code) s.view) :
    Invariant { s with
      code := code
      pending := s.mailbox
      log := s.log ++ [.checkIn s.mailbox] } := by
  obtain ⟨-, hstarted, hdescribes, hcode⟩ := hcode
  have hmodel := h.modelSideSem_eq_zero (.inr hstarted)
  have hnot : .permit ∉ s.log := by simpa [State.view] using hstarted
  refine ⟨?_, h.tells_concat ⟨hdescribes.1, hdescribes.2, hnot⟩, h.units, ?_, ?_, h.retired,
    h.ended_concat rfl, ?_⟩
  · exact runFrom_handshakes_of_none h.keeps rfl
  · exact fun hexecuting hchild => absurd (h.started hexecuting hchild) hnot
  · exact h.restart_concat (by simp)
  · have hview : State.view { s with
        code := code
        pending := s.mailbox
        log := s.log ++ [.checkIn s.mailbox] } = s.view.tell := by
      simp [State.view, View.tell, hmodel, State.owing, progress_concat, endings_concat,
        Event.reportsEnd]
    rw [hview]
    exact hcode

/-- The thread waits, blocks or ends. -/
theorem Invariant.rest (h : Invariant s) {r : Rest} (hcode : Fulfils (.rest r :: code) s.view) :
    Invariant { s with code := code, log := s.log ++ [.rest r] } := by
  obtain ⟨howing, hcode⟩ := hcode
  refine ⟨?_, h.tells_concat trivial, h.units, ?_, ?_, h.retired, h.ended_concat rfl, ?_⟩
  · exact runFrom_handshakes_concat h.keeps rfl (step_rest (phase_ne_owing howing))
  · exact fun hexecuting hchild => mem_concat_of_mem (h.started hexecuting hchild)
  · exact h.restart_concat (by simp)
  · have hview : State.view { s with code := code, log := s.log ++ [.rest r] } = s.view := by
      simp [State.view, State.owing, progress_concat, endings_concat, Event.reportsEnd]
    rw [hview]
    exact hcode

/-- The thread consumes a permit. -/
theorem Invariant.waitForScheduler (h : Invariant s)
    (hcode : Fulfils (.waitForScheduler :: code) s.view) (hpermit : 0 < s.childSideSem) :
    Invariant { s with
      code := code
      childSideSem := s.childSideSem - 1
      log := s.log ++ [.permit] } := by
  have hunits := h.units
  have hexecuting : s.executing = true := by
    by_contra hexecuting
    rw [if_neg hexecuting] at hunits
    omega
  rw [if_pos hexecuting] at hunits
  have hchild : s.childSideSem = 1 := by omega
  have hmodel : s.modelSideSem = 0 := by omega
  have hretired := h.retired hexecuting
  have hmem : .permit ∈ s.log ++ [.permit] := by simp
  refine ⟨?_, h.tells_concat trivial, ?_, fun _ _ => hmem, ?_, h.retired,
    h.ended_concat rfl, ?_⟩
  · refine runFrom_handshakes_concat h.keeps rfl ?_
    rw [State.phase, State.phase, if_pos hexecuting, if_pos hpermit, if_pos hexecuting,
      if_neg (by simp [hchild]), if_neg (by simp [hmodel])]
    rfl
  · change s.childSideSem - 1 + s.modelSideSem ≤ if s.executing then 1 else 0
    omega
  · exact fun hmode => absurd (hexecuting.symm.trans (h.restart hmode).1) (by decide)
  · have hview : State.view { s with
        code := code
        childSideSem := s.childSideSem - 1
        log := s.log ++ [.permit] } = s.view.permit := by
      simp [State.view, View.permit, hexecuting, hchild, hmodel, State.owing, progress_concat,
        endings_concat, Event.reportsEnd]
    rw [hview]
    refine hcode.2 fun hfinished => ?_
    have hendings := h.ended hexecuting hmodel
    rcases hfinished with hfinished | hfinished
    · simp [State.view, hmodel, hretired] at hfinished
    · exact absurd (hfinished.trans hendings) (by decide)

/-- The next instruction, of which the case split is one over the instructions. -/
theorem Invariant.advance (h : Invariant s) (hstep : s.advance = some s') : Invariant s' := by
  have hfulfils := h.fulfils
  rw [State.advance] at hstep
  cases hcode : s.code with
  | nil =>
    rw [hcode] at hstep
    cases hstep
  | cons instr code =>
    rw [hcode] at hstep hfulfils
    cases instr with
    | stop => cases hstep
    | write contents =>
      cases hstep
      exact h.write hfulfils
    | wakeScheduler =>
      cases hstep
      exact h.wakeScheduler hfulfils
    | notifyTemplateThread =>
      cases hstep
      exact h.notifyTemplateThread hfulfils
    | rest r =>
      cases hstep
      exact h.rest hfulfils
    | waitForScheduler =>
      obtain ⟨hpermit, hs'⟩ := Option.ite_none_right_eq_some.mp hstep
      cases hs'
      exact h.waitForScheduler hfulfils hpermit
    | waitForBranch =>
      obtain ⟨-, hs'⟩ := Option.ite_none_right_eq_some.mp hstep
      cases hs'
      exact h.setCode hfulfils
    | waitForExitPermission | lib | create =>
      cases hstep
      exact h.setCode hfulfils
    | assert holds =>
      cases hstep
      cases holds with
      | true => exact h.setCode hfulfils
      | false => exact h.setCode ⟨hfulfils, trivial⟩

/-- The thread calls a wrapper. -/
theorem Invariant.call (h : Invariant s) (hin : s.code = []) (hproper : Proper s (.call c)) :
    Invariant { s with code := c.code t s.mode, log := s.log ++ [.call c] } := by
  have hsettled : s.view.Settled := by
    have hfulfils := h.fulfils
    rw [hin] at hfulfils
    exact hfulfils
  have hview : State.view { s with code := c.code t s.mode, log := s.log ++ [.call c] } =
      { s.view with progress := some (c, 0) } := by
    simp [State.view, State.owing, progress_concat, endings_concat, Event.reportsEnd]
  have hstarted : s.view.started = !s.mode.isInRestartMode := by
    cases hmode : s.mode with
    | targetBranch => exact hsettled.2 (decide_eq_true hmode)
    | targetBranchAfterRestart =>
      rw [Proper, if_neg (by rw [hmode]; decide)] at hproper
      exact List.contains_iff_mem.mpr (hproper.2 hmode)
    | dmtcpRestartIntoBranch | dmtcpRestartIntoTemplate =>
      have hnot := (h.restart (by rw [hmode]; rfl)).2
      exact Bool.eq_false_of_not_eq_true fun hmem => hnot (List.contains_iff_mem.mp hmem)
  refine ⟨?_, h.tells_concat trivial, h.units, ?_, ?_, h.retired, h.ended_concat rfl, ?_⟩
  · exact runFrom_handshakes_of_none h.keeps rfl
  · exact fun hexecuting hchild => mem_concat_of_mem (h.started hexecuting hchild)
  · exact h.restart_concat (by simp)
  · rw [hview]
    refine fulfils_code ⟨hsettled.1.trans hstarted, hstarted⟩ hsettled rfl ?_ ?_
    · intro hmode
      rw [Proper, if_neg (by rw [hmode]; decide)] at hproper
      exact hproper.1
    · intro hmode
      rw [Proper, if_pos hmode] at hproper
      exact hproper

/-- The mode changes. -/
theorem Invariant.changeMode (h : Invariant s) (hmode : s.mode.isInRestartMode = true) :
    Invariant { s with mode := .targetBranchAfterRestart } := by
  refine ⟨h.keeps, h.tells, h.units, h.started, nofun, h.retired, h.ended, ?_⟩
  have hview : State.view { s with mode := .targetBranchAfterRestart } = s.view := by
    have hclassic : decide (s.mode = .targetBranch) = false := by
      refine decide_eq_false fun heq => ?_
      rw [heq] at hmode
      exact absurd hmode (by decide)
    simp only [State.view, State.owing, hclassic]
    rfl
  rw [hview]
  exact h.fulfils

/-- McMini gives a permit. -/
theorem Invariant.executeRunner (h : Invariant s) (hmode : ¬ s.mode.isInRestartMode = true)
    (hexecuting : ¬ s.executing = true) (hretired : ¬ s.retired = true)
    (hendings : endings s.log ≤ 1) :
    Invariant { s with
      executing := true
      childSideSem := s.childSideSem + 1
      log := s.log ++ [.executeRunner] } := by
  have hunits := h.units
  rw [if_neg hexecuting] at hunits
  have hchild : s.childSideSem = 0 := by omega
  have hmodel : s.modelSideSem = 0 := by omega
  refine ⟨?_, h.tells_concat trivial, ?_, ?_, fun hrestart => absurd hrestart hmode,
    fun _ => Bool.eq_false_of_not_eq_true hretired, fun _ _ => ?_, ?_⟩
  · refine runFrom_handshakes_concat h.keeps rfl ?_
    rw [State.phase, State.phase, if_neg hexecuting, if_pos rfl, if_pos (Nat.succ_pos _)]
    rfl
  · change s.childSideSem + 1 + s.modelSideSem ≤ 1
    omega
  · exact fun _ hzero => absurd hzero (Nat.succ_ne_zero _)
  · change endings (s.log ++ [.executeRunner]) ≤ 1
    rw [endings_concat]
    exact hendings
  · have hview : State.view { s with
        executing := true
        childSideSem := s.childSideSem + 1
        log := s.log ++ [.executeRunner] } = s.view := by
      simp [State.view, State.owing, hexecuting, hmodel, progress_concat, endings_concat,
        Event.reportsEnd]
    rw [hview]
    exact h.fulfils

/-- McMini takes the report. -/
theorem Invariant.receive (h : Invariant s) (hexecuting : s.executing = true)
    (hreport : 0 < s.modelSideSem) :
    Invariant { s with
      executing := false
      modelSideSem := s.modelSideSem - 1
      pending := s.mailbox
      retired := s.pending.any exits
      log := s.log ++ [.returned s.mailbox] } := by
  have hunits := h.units
  rw [if_pos hexecuting] at hunits
  have hchild : s.childSideSem = 0 := by omega
  have hmodel : s.modelSideSem = 1 := by omega
  refine ⟨?_, h.tells_concat trivial, ?_, nofun, ?_, nofun, nofun, ?_⟩
  · refine runFrom_handshakes_concat h.keeps rfl ?_
    rw [State.phase, State.phase, if_pos hexecuting, if_neg (by omega), if_pos hreport,
      if_neg Bool.false_ne_true]
    exact if_pos rfl
  · change s.childSideSem + (s.modelSideSem - 1) ≤ 0
    omega
  · exact fun hmode => absurd (hexecuting.symm.trans (h.restart hmode).1) (by decide)
  · have hview : State.view { s with
        executing := false
        modelSideSem := s.modelSideSem - 1
        pending := s.mailbox
        retired := s.pending.any exits
        log := s.log ++ [.returned s.mailbox] } = s.view := by
      simp [State.view, State.owing, hmodel, progress_concat, endings_concat,
        Event.reportsEnd]
    rw [hview]
    exact h.fulfils

/-- A creation which fails after a restart leaves nothing owed. -/
theorem Invariant.createFails (h : Invariant s) (hmode : s.mode.isInRestartMode = true) :
    Invariant { s with code := [.rest .blocks, .stop] } := by
  refine h.setCode ⟨?_, trivial⟩
  change (s.executing && _ && _) = false
  rw [(h.restart hmode).1]
  rfl

theorem Invariant.step (h : Invariant s) {act : Action} (hproper : Proper s act)
    (hstep : TargetThread.step t act s = some s') : Invariant s' := by
  cases act with
  | call c =>
    obtain ⟨⟨hin, -⟩, hs'⟩ := Option.ite_none_right_eq_some.mp hstep
    cases hs'
    exact h.call hin hproper
  | advance => exact h.advance hstep
  | createFails =>
    rw [TargetThread.step] at hstep
    split at hstep
    · cases hstep
      exact h.createFails hproper
    · cases hstep
  | hangs => exact hproper.elim
  | changeMode =>
    obtain ⟨⟨hmode, -⟩, hs'⟩ := Option.ite_none_right_eq_some.mp hstep
    cases hs'
    exact h.changeMode hmode
  | executeRunner =>
    obtain ⟨⟨hmode, hexecuting, hretired⟩, hs'⟩ := Option.ite_none_right_eq_some.mp hstep
    cases hs'
    exact h.executeRunner hmode hexecuting hretired hproper
  | receive =>
    obtain ⟨⟨hexecuting, hreport⟩, hs'⟩ := Option.ite_none_right_eq_some.mp hstep
    cases hs'
    exact h.receive hexecuting hreport

/-! ### Runs -/

/-- The handshake is between two rounds when McMini is not in `execute_runner`. -/
theorem Invariant.keepsHandshake (h : Invariant s) : s.KeepsHandshake := by
  refine ⟨⟨s.phase, h.keeps⟩, h.tells, fun hidle => ?_, fun hidle => ?_⟩
  · have hunits := h.units
    rw [if_neg (by rw [hidle]; exact Bool.false_ne_true)] at hunits
    omega
  · have hphase : s.phase = .idle := if_neg (by rw [hidle]; exact Bool.false_ne_true)
    exact Handshake.counts_idle (hphase ▸ h.keeps)

/-- In every run whose actions are proper the thread and McMini keep to the handshake. -/
theorem keepsHandshake_of_run {acts : List Action}
    (hproper : HoldsAlong (step t) Proper (start mode) acts)
    (h : runFrom (step t) (start mode) acts = some s) : s.KeepsHandshake :=
  (runFrom_invariant_along (fun _ _ _ hs hact hstep => hs.step hact hstep) (invariant_start mode)
    hproper h).keepsHandshake

/-- A thread checks in with a lock, takes the mutex when it is let run, and reports that it gives
the mutex up. -/
private def locking : List Action :=
  [.call (.mutexLock 7 true), .advance, .advance, .advance, .changeMode, .advance, .advance,
    .executeRunner, .advance, .advance, .call (.mutexUnlock 7), .advance, .advance, .receive]

theorem keepsHandshake_of_locking :
    ∃ s, runFrom (step ⟨false, true⟩) (start .dmtcpRestartIntoTemplate) locking = some s ∧
      s.KeepsHandshake := by
  obtain ⟨s, hs⟩ := Option.isSome_iff_exists.mp (show
    (runFrom (step ⟨false, true⟩) (start .dmtcpRestartIntoTemplate) locking).isSome = true by rfl)
  exact ⟨s, hs, keepsHandshake_of_run (by decide) hs⟩

/-- A thread returns from its start routine after a restart, and is let run. -/
private def returning : List Action :=
  [.call .returns, .advance, .advance, .advance, .changeMode, .executeRunner, .advance, .advance,
    .advance]

/-- It waits for a second permit, while McMini waits for its report. -/
theorem not_keepsHandshake_of_returning :
    ∃ s, runFrom (step ⟨false, true⟩) (start .dmtcpRestartIntoBranch) returning = some s ∧
      ¬ s.KeepsHandshake ∧ s.executing = true ∧ s.childSideSem = 0 ∧ s.modelSideSem = 0 ∧
      s.code.head? = some .waitForScheduler := by
  obtain ⟨s, hs⟩ := Option.isSome_iff_exists.mp (show
    (runFrom (step ⟨false, true⟩) (start .dmtcpRestartIntoBranch) returning).isSome = true by rfl)
  have hfinal : (runFrom (step ⟨false, true⟩) (start .dmtcpRestartIntoBranch) returning).map
      (fun s => (runFrom Handshake.step .idle s.handshakes, s.executing, s.childSideSem,
        s.modelSideSem, s.code.head?)) =
      some (none, true, 0, 0, some .waitForScheduler) := by rfl
  rw [hs] at hfinal
  have hvalues := Option.some.inj hfinal
  simp only [Prod.mk.injEq] at hvalues
  obtain ⟨hhandshakes, hrest⟩ := hvalues
  refine ⟨s, hs, fun h => ?_, hrest⟩
  obtain ⟨phase, hphase⟩ := h.keeps
  rw [hhandshakes] at hphase
  cases hphase

end McMini.TargetThread
