import McMini.Foundation.Handshake
import McMini.Model.Coordinator

/-!
# A thread of the target

Under the model checker a thread of the target runs from one call of a wrapper to the next.
What a call makes it do is a list of instructions, which depends on the mode the call is made
in: mostly it describes the operation in the thread's mailbox, reports it, waits for a permit and
calls the real function. After a restart from a checkpoint the first call of a thread checks in
with the template thread instead of reporting, and the mode then changes to
`TARGET_BRANCH_AFTER_RESTART`. A call which was made while recording, and whose loop has been left
because of the restart, goes on as one made after the restart.

The mailbox has a semaphore for each side. McMini gives a permit and waits for the report in
`local_linux_process::execute_runner` (`Action.executeRunner` and `Action.receive`), and executes
in the model what the thread has reported last. It does not execute a runner which has exited.
Whether it executes one which is about to end the program abnormally depends on the search: after a
round of the exploration it looks at the next operation and stops, after a backtracking it does not.
-/

namespace McMini

deriving instance DecidableEq, Repr for MailboxContents

namespace TargetThread

/-- The modes in which a thread is under the control of the model checker or comes under it. -/
inductive Mode
  | targetBranch | targetBranchAfterRestart
  | dmtcpRestartIntoBranch | dmtcpRestartIntoTemplate
  deriving DecidableEq, Repr

/-- `is_in_restart_mode`. -/
def Mode.isInRestartMode (mode : Mode) : Bool :=
  mode = .dmtcpRestartIntoBranch ∨ mode = .dmtcpRestartIntoTemplate

/-- What does not change in the life of the thread. -/
structure Thread where
  /-- The thread is the main thread. -/
  main : Bool
  /-- `mc_exit_main_thread_in_child` has been installed with `atexit`. -/
  atExit : Bool
  deriving DecidableEq, Repr

/-- The entry of a thread in the `pthread_map`, and whether the thread was recreated after a
restart (`mc_pthread_is_recreated_thread`). -/
structure PthreadMapEntry where
  value : RunnerId
  registeredPostRestart : Bool
  recreated : Bool
  deriving DecidableEq, Repr

/-- The functions of the thread library, and the semaphores of a thread which ends. -/
inductive LibCall
  | mutexInit (mutex : Addr)
  | mutexLock (mutex : Addr)
  | mutexUnlock (mutex : Addr)
  | semInit (sem : Addr) (count : BitVec 32)
  | semPost (sem : Addr)
  | semDestroy (sem : Addr)
  | join (t : Addr)
  | postExitPermission (t : Addr)
  | waitReallyExited (t : Addr)
  | postReallyExited
  deriving DecidableEq, Repr

/-- Whether the function may block. -/
def LibCall.mayBlock : LibCall → Bool
  | .mutexLock _ | .join _ | .waitReallyExited _ => true
  | _ => false

/-- What a thread does when it does not run on. -/
inductive Rest
  | waits | blocks | ends
  deriving DecidableEq, Repr

inductive Instr
  /-- Writes the type and the contents of the mailbox. -/
  | write (contents : MailboxContents)
  /-- `mc_wake_scheduler`. -/
  | wakeScheduler
  /-- `notify_template_thread`. -/
  | notifyTemplateThread
  /-- The thread is about to wait, to block or to end. -/
  | rest (r : Rest)
  /-- `mc_wait_for_scheduler`. -/
  | waitForScheduler
  /-- Waits on `template_thread_cond` for the branch. -/
  | waitForBranch
  /-- Waits on `exit_permission_sem` until the thread is joined. -/
  | waitForExitPermission
  | lib (f : LibCall)
  /-- Creates a thread and waits until it has registered. -/
  | create
  | assert (holds : Bool)
  /-- The thread has ended, or never runs again. -/
  | stop
  deriving DecidableEq, Repr

/-- The wrappers, with their arguments. What is described in a mailbox by an address, and looked
up in the memory of the target by McMini, is an argument too. -/
inductive Call
  /-- With the attributes' type. -/
  | mutexInit (mutex : Addr) (normal : Bool)
  | mutexLock (mutex : Addr) (isStaticInitializer : Bool)
  | mutexUnlock (mutex : Addr)
  | condInit (cond : Addr)
  | condWait (cond mutex : Addr) (isStaticInitializer : Bool)
  | condSignal (cond : Addr) (isStaticInitializer : Bool)
  | condBroadcast (cond : Addr) (isStaticInitializer : Bool)
  | condDestroy (cond : Addr)
  | semInit (sem : Addr) (count : BitVec 32)
  | semPost (sem : Addr)
  | semWait (sem : Addr)
  | semDestroy (sem : Addr)
  | sleep
  /-- With the handle of the thread which is created. -/
  | create (thread : Addr)
  /-- With the entry of the thread which is joined. -/
  | join (t : Addr) (entry : Option PthreadMapEntry)
  | pthreadExit
  /-- `exit`, and the return from `main`. -/
  | exit (status : ℤ)
  | abort
  /-- The return from the start routine of another thread than the main thread. -/
  | returns
  deriving DecidableEq, Repr

/-! ### The wrappers -/

def threadAwaitScheduler : List Instr := [.rest .waits, .waitForScheduler]

def threadWakeSchedulerAndWait : List Instr := .wakeScheduler :: threadAwaitScheduler

/-- `thread_handle_after_dmtcp_restart`, for the mode on entry. -/
def threadHandleAfterDmtcpRestart : Mode → List Instr
  | .dmtcpRestartIntoTemplate =>
    [.notifyTemplateThread, .rest .blocks, .waitForBranch] ++ threadAwaitScheduler
  | .dmtcpRestartIntoBranch => .notifyTemplateThread :: threadAwaitScheduler
  | .targetBranch | .targetBranchAfterRestart => [.rest .ends, .stop]

/-- Describes an operation and lets McMini schedule it. -/
def visibleOperation (mode : Mode) (contents : MailboxContents) : List Instr :=
  .write contents ::
    if mode.isInRestartMode then threadHandleAfterDmtcpRestart mode else threadWakeSchedulerAndWait

def mcPthreadMutexInit (mode : Mode) (mutex : Addr) (normal : Bool) : List Instr :=
  .assert normal :: visibleOperation mode (.mutexInit mutex) ++ [.lib (.mutexInit mutex)]

def mcPthreadMutexLock (mode : Mode) (mutex : Addr) (isStaticInitializer : Bool) : List Instr :=
  visibleOperation mode (.mutexLock mutex isStaticInitializer) ++ [.lib (.mutexLock mutex)]

def mcPthreadMutexUnlock (mode : Mode) (mutex : Addr) : List Instr :=
  visibleOperation mode (.mutexUnlock mutex) ++ [.lib (.mutexUnlock mutex)]

def mcPthreadCondInit (mode : Mode) (cond : Addr) : List Instr :=
  visibleOperation mode (.condInit cond)

/-- The second round reports in every mode, since a thread checks in once. -/
def mcPthreadCondWait (mode : Mode) (cond mutex : Addr) (isStaticInitializer : Bool) :
    List Instr :=
  visibleOperation mode (.condEnqueue cond mutex isStaticInitializer) ++
    [.lib (.mutexUnlock mutex), .write (.condWait cond mutex)] ++
    threadWakeSchedulerAndWait ++ [.lib (.mutexLock mutex)]

def mcPthreadCondSignal (mode : Mode) (cond : Addr) (isStaticInitializer : Bool) : List Instr :=
  visibleOperation mode (.condSignal cond isStaticInitializer)

def mcPthreadCondBroadcast (mode : Mode) (cond : Addr) (isStaticInitializer : Bool) :
    List Instr :=
  visibleOperation mode (.condBroadcast cond isStaticInitializer)

def mcPthreadCondDestroy (mode : Mode) (cond : Addr) : List Instr :=
  visibleOperation mode (.condDestroy cond)

def mcSemInit (mode : Mode) (sem : Addr) (count : BitVec 32) : List Instr :=
  visibleOperation mode (.semInit sem count) ++ [.lib (.semInit sem count)]

def mcSemPost (mode : Mode) (sem : Addr) : List Instr :=
  visibleOperation mode (.semPost sem) ++ [.lib (.semPost sem)]

/-- The real semaphore is posted, not waited for. -/
def mcSemWait (mode : Mode) (sem : Addr) : List Instr :=
  visibleOperation mode (.semWait sem) ++ [.lib (.semPost sem)]

def mcSemDestroy (mode : Mode) (sem : Addr) : List Instr :=
  visibleOperation mode (.semDestroy sem) ++ [.lib (.semDestroy sem)]

/-- After a restart a creation is not visible until the new thread has checked in. -/
def mcPthreadCreate (mode : Mode) (thread : Addr) : List Instr :=
  if mode.isInRestartMode then [.create]
  else .create :: .write (.threadCreate thread) :: threadWakeSchedulerAndWait

/-- The real join, which depends on how the thread which is joined came to be. -/
def realJoin (mode : Mode) (t : Addr) (entry : Option PthreadMapEntry) : List Instr :=
  match mode with
  | .targetBranch => [.assert entry.isSome, .lib (.postExitPermission t), .lib (.join t)]
  | .targetBranchAfterRestart =>
    .assert entry.isSome :: .lib (.postExitPermission t) ::
      if entry.any (·.registeredPostRestart) then [.lib (.join t)]
      else if entry.any (·.recreated) then [.lib (.waitReallyExited t)]
      else []
  | .dmtcpRestartIntoBranch | .dmtcpRestartIntoTemplate => []

def mcPthreadJoin (mode : Mode) (t : Addr) (entry : Option PthreadMapEntry) : List Instr :=
  visibleOperation mode (.threadJoin ((entry.map (·.value)).getD ridInvalid)) ++
    realJoin mode t entry

def mcExitThreadInChild : List Instr :=
  .write .threadExit :: threadWakeSchedulerAndWait ++
    [.wakeScheduler, .rest .blocks, .waitForExitPermission, .lib .postReallyExited]

def mcExitMainThreadInChild (t : Thread) : List Instr :=
  if t.main then
    .write .threadExit :: threadWakeSchedulerAndWait ++
      [.write .threadExit, .wakeScheduler, .rest .blocks, .stop]
  else [.rest .ends, .stop]

/-- `libc_exit`, which calls the handlers that are installed with `atexit`. -/
def libcExit (t : Thread) : List Instr :=
  (if t.atExit then mcExitMainThreadInChild t else []) ++ [.rest .ends, .stop]

/-- The case of `DMTCP_RESTART_INTO_BRANCH` and `DMTCP_RESTART_INTO_TEMPLATE` in the wrappers
which fall through to the next case. -/
def checkInFirst (mode : Mode) (contents : MailboxContents) : List Instr :=
  if mode.isInRestartMode then .write contents :: threadHandleAfterDmtcpRestart mode else []

def mcTransparentExit (t : Thread) (mode : Mode) (status : ℤ) : List Instr :=
  checkInFirst mode (.processExit status) ++
    .write (.processExit status) :: threadWakeSchedulerAndWait ++
    .write (.processExit status) :: threadWakeSchedulerAndWait ++ libcExit t

def mcTransparentAbort (mode : Mode) : List Instr :=
  checkInFirst mode .processAbort ++
    .write .processAbort :: threadWakeSchedulerAndWait ++
    .write .processAbort :: threadWakeSchedulerAndWait ++ [.rest .ends, .stop]

def mcPthreadExit (t : Thread) (mode : Mode) : List Instr :=
  checkInFirst mode .threadExit ++
    (if t.main then mcExitMainThreadInChild t else mcExitThreadInChild) ++ [.rest .ends, .stop]

/-- The second `switch` of `mc_thread_routine_wrapper`, after the start routine. -/
def mcThreadRoutineReturn (mode : Mode) : List Instr :=
  if mode.isInRestartMode then
    .write .threadExit :: threadHandleAfterDmtcpRestart mode ++
      .write .threadExit :: threadAwaitScheduler ++ [.rest .ends, .stop]
  else mcExitThreadInChild ++ [.rest .ends, .stop]

/-- The first `switch` of `mc_thread_routine_wrapper`, and what `libmcmini_main` does last. After
a restart, a thread runs on to its next call. -/
def mcThreadRoutineStart (mode : Mode) : List Instr :=
  if mode.isInRestartMode then [] else threadAwaitScheduler

/-- What a call makes the thread do. -/
def Call.code (t : Thread) (mode : Mode) : Call → List Instr
  | .mutexInit mutex normal => mcPthreadMutexInit mode mutex normal
  | .mutexLock mutex isStatic => mcPthreadMutexLock mode mutex isStatic
  | .mutexUnlock mutex => mcPthreadMutexUnlock mode mutex
  | .condInit cond => mcPthreadCondInit mode cond
  | .condWait cond mutex isStatic => mcPthreadCondWait mode cond mutex isStatic
  | .condSignal cond isStatic => mcPthreadCondSignal mode cond isStatic
  | .condBroadcast cond isStatic => mcPthreadCondBroadcast mode cond isStatic
  | .condDestroy cond => mcPthreadCondDestroy mode cond
  | .semInit sem count => mcSemInit mode sem count
  | .semPost sem => mcSemPost mode sem
  | .semWait sem => mcSemWait mode sem
  | .semDestroy sem => mcSemDestroy mode sem
  | .sleep => []
  | .create thread => mcPthreadCreate mode thread
  | .join thread entry => mcPthreadJoin mode thread entry
  | .pthreadExit => mcPthreadExit t mode
  | .exit status => mcTransparentExit t mode status
  | .abort => mcTransparentAbort mode
  | .returns => mcThreadRoutineReturn mode

/-! ### Runs -/

/-- What is seen of a run. -/
inductive Event
  | call (c : Call)
  /-- The thread checks in, with what its mailbox describes. -/
  | checkIn (contents : Option MailboxContents)
  /-- McMini gives a permit. -/
  | executeRunner
  /-- The thread consumes it. -/
  | permit
  /-- The thread posts a report. -/
  | report (contents : Option MailboxContents)
  /-- `execute_runner` returns the mailbox. -/
  | returned (contents : Option MailboxContents)
  | rest (r : Rest)
  deriving DecidableEq, Repr

structure State where
  mode : Mode
  /-- What remains of the call; in the program there is nothing. -/
  code : List Instr
  mailbox : Option MailboxContents := none
  childSideSem : ℕ := 0
  modelSideSem : ℕ := 0
  /-- McMini is in `execute_runner`. -/
  executing : Bool := false
  /-- The operation which McMini executes with the next permit. The start of a thread is
  reported by its creator. -/
  pending : Option MailboxContents := none
  /-- The runner has exited in the model, and is not executed any more. -/
  retired : Bool := false
  log : List Event := []
  deriving DecidableEq, Repr

inductive Action
  /-- The program calls a wrapper. -/
  | call (c : Call)
  /-- The thread executes an instruction. -/
  | advance
  /-- `libpthread_pthread_create` fails. -/
  | createFails
  /-- A function of the thread library does not return. -/
  | hangs
  /-- The template thread, or the thread which is about to become the branch's, changes the
  mode. -/
  | changeMode
  /-- `execute_runner` gives a permit. -/
  | executeRunner
  /-- `execute_runner` has been woken, and the coordinator goes on. -/
  | receive
  deriving DecidableEq, Repr

/-- The thread or the process exits by the operation. -/
def exits : MailboxContents → Bool
  | .threadExit | .processExit _ => true
  | _ => false

/-- The exploration stops when this is the next operation of the runner just executed. -/
def endsAbnormally : MailboxContents → Bool
  | .processAbort => true
  | .processExit exitCode => exitCode > 0
  | _ => false

/-- Whether the thread has checked in. -/
def State.hasCheckedIn (s : State) : Bool :=
  s.log.any fun
    | .checkIn _ => true
    | _ => false

/-- The next instruction. -/
def State.advance (s : State) : Option State :=
  match s.code with
  | [] | .stop :: _ => none
  | .write contents :: code => some { s with code := code, mailbox := some contents }
  | .wakeScheduler :: code => some { s with
      code := code
      modelSideSem := s.modelSideSem + 1
      log := s.log ++ [.report s.mailbox] }
  | .notifyTemplateThread :: code => some { s with
      code := code
      pending := s.mailbox
      log := s.log ++ [.checkIn s.mailbox] }
  | .rest r :: code => some { s with code := code, log := s.log ++ [.rest r] }
  | .waitForScheduler :: code =>
    if 0 < s.childSideSem then some { s with
      code := code
      childSideSem := s.childSideSem - 1
      log := s.log ++ [.permit] }
    else none
  | .waitForBranch :: code =>
    if s.mode = .targetBranchAfterRestart then some { s with code := code } else none
  -- what is waited for is up to the other threads
  | .waitForExitPermission :: code | .lib _ :: code | .create :: code =>
    some { s with code := code }
  | .assert holds :: code =>
    some { s with code := if holds then code else [.rest .ends, .stop] }

/-- What an action leads to, if it can be taken. -/
def step (t : Thread) : Action → State → Option State
  | .call c, s =>
    if s.code = [] ∧ ¬ (c = .returns ∧ t.main) then
      some { s with code := c.code t s.mode, log := s.log ++ [.call c] }
    else none
  | .advance, s => s.advance
  | .createFails, s =>
    match s.code with
    | .create :: _ => some { s with code := [.rest .blocks, .stop] }
    | _ => none
  | .hangs, s =>
    match s.code with
    | .lib f :: _ => if f.mayBlock then some { s with code := [.rest .blocks, .stop] } else none
    | _ => none
  | .changeMode, s =>
    if s.mode.isInRestartMode ∧ (s.code = [] ∨ s.hasCheckedIn) then
      some { s with mode := .targetBranchAfterRestart }
    else none
  | .executeRunner, s =>
    if ¬ s.mode.isInRestartMode ∧ ¬ s.executing ∧ ¬ s.retired then some { s with
      executing := true
      childSideSem := s.childSideSem + 1
      log := s.log ++ [.executeRunner] }
    else none
  | .receive, s =>
    if s.executing ∧ 0 < s.modelSideSem then some { s with
      executing := false
      modelSideSem := s.modelSideSem - 1
      pending := s.mailbox
      retired := s.pending.any exits
      log := s.log ++ [.returned s.mailbox] }
    else none

/-- A thread which starts in the mode, or which goes on in it after a restart. -/
def start (mode : Mode) : State where
  mode := mode
  code := mcThreadRoutineStart mode

end TargetThread

end McMini
