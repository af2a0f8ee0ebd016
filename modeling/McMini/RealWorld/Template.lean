import Mathlib.Data.Multiset.AddSub
import McMini.Foundation.Runs
import McMini.RealWorld.ExecuteRunner

/-!
# Creating branch processes

The coordinator replaces its process by destroying the handle, which kills the branch with
`SIGUSR1`, and by `fork_process_source::make_new_process`. The latter reinitializes the
mailboxes, posts a request to the template process and waits until the template has forked.
The template serves one request after the other: it forks, stores the pid of the branch in the
shared memory, posts, and waits until its handler of `SIGCHLD` has reaped the branch.

The template's loop exists twice, for a template which has one thread only and for the thread
of a restarted program (`Loop`). The two differ in what they store when `fork` has failed.

Permits and reports are units of semaphores. For the statements each carries the number of the
request whose branch it is meant for, respectively comes from.
-/

namespace McMini

namespace Template

/-- `mc_template_process_loop_forever` and `mc_template_thread_loop_forever`. -/
inductive Loop
  | process | thread
  deriving DecidableEq, Repr

/-- `TEMPLATE_FORK_FAILED`. -/
def templateForkFailed : ℤ := -2

/-- `SIGUSR1`. -/
def sigusr1 : ℤ := 10

inductive BranchStatus
  | live
  /-- `SIGUSR1` has been sent. -/
  | killed
  | zombie
  | reaped
  deriving DecidableEq, Repr

structure Branch where
  pid : ℤ
  /-- The request for which it was forked. -/
  request : ℕ
  status : BranchStatus := .live
  /-- The runner which has taken a permit and not yet posted its report. -/
  owing : Option RunnerId := none
  deriving DecidableEq, Repr

/-- The `process_creation_exception`s of `make_new_process`. -/
inductive CreationFailure
  | templateDied
  | templateOrBranchDied
  | forkFailed (err : ℤ)
  deriving DecidableEq, Repr

/-- Where McMini's main thread is. -/
inductive McMiniThread
  /-- The coordinator has the handle of a process. -/
  | holding (pid : ℤ)
  /-- In `execute_runner`. -/
  | executing (pid : ℤ) (id : RunnerId)
  /-- Without a handle. -/
  | destroyed
  /-- In `make_new_process`, before the request. -/
  | requesting
  /-- Waits on `mcmini_process_sem`. -/
  | waitingForFork
  | woken
  | threw (e : CreationFailure)
  deriving DecidableEq, Repr

/-- Where the loop of the template is. -/
inductive TemplateThread
  /-- Waits on `libmcmini_sem`. -/
  | waitingForRequest
  | forking
  /-- Before the post of `mcmini_process_sem`. -/
  | posting
  /-- Waits on `sigchld_sem`. -/
  | waitingForDeath
  deriving DecidableEq, Repr

structure State where
  loop : Loop
  mcmini : McMiniThread := .destroyed
  /-- The number of requests so far. -/
  requests : ℕ := 0
  /-- The counter of `SIGCHLD` in McMini. -/
  sigchld : ℕ := 0
  libmcminiSem : ℕ := 0
  mcminiProcessSem : ℕ := 0
  cpid : ℤ := 0
  err : ℤ := 0
  childSideSem : Multiset (RunnerId × ℕ) := 0
  modelSideSem : Multiset (RunnerId × ℕ) := 0
  template : TemplateThread := .waitingForRequest
  /-- The number of requests which the template has taken. -/
  served : ℕ := 0
  sigchldSem : ℕ := 0
  templatePending : Bool := false
  templateHandler : ExecuteRunner.TemplateHandler := .idle
  /-- The latest one is the first. -/
  branches : List Branch := []
  deriving DecidableEq

inductive Action
  /-- `execute_runner`: the permit, and the report. -/
  | wakeThread (id : RunnerId)
  | takeReport (request : ℕ)
  /-- The destructor of the handle. -/
  | destroy
  /-- `make_new_process` up to its first look at the counter. -/
  | resetSemaphores
  | postRequest | semWait
  /-- The rest of `make_new_process`. -/
  | makeHandle
  /-- The template's loop. -/
  | takeRequest
  | fork (pid : ℤ)
  | forkFailed (err : ℤ)
  | postFork | takeDeath
  /-- The handler interrupts the wait for a request. -/
  | interrupt
  /-- The template's handler of `SIGCHLD`. -/
  | templateWaitpid (branch : ℕ)
  | templateKill | templateSemPost
  /-- The steps of a branch. -/
  | takePermit (branch : ℕ) (id : RunnerId) (request : ℕ)
  | postReport (branch : ℕ)
  | die (branch : ℕ)
  deriving DecidableEq, Repr

/-- `kill(pid, SIGUSR1)`, as it concerns the branch. -/
def Branch.kill (pid : ℤ) (b : Branch) : Branch :=
  if b.pid = pid ∧ b.status = .live then { b with status := .killed } else b

/-- `~local_linux_process`. A handle without a process does nothing. -/
def State.destroyHandle (pid : ℤ) (s : State) : State :=
  if pid ≤ 0 then { s with mcmini := .destroyed }
  else { s with mcmini := .destroyed, branches := s.branches.map (·.kill pid) }

/-- The end of `make_new_process`. -/
def State.makeHandle (s : State) : State :=
  if 0 < s.sigchld then
    { s with sigchld := s.sigchld - 1, mcmini := .threw .templateOrBranchDied }
  else if s.cpid = templateForkFailed then { s with mcmini := .threw (.forkFailed s.err) }
  else { s with mcmini := .holding s.cpid }

/-- What the template stores in `cpid` when `fork` has failed. The loop of the process goes on
to store the result of `fork`. -/
def Loop.storedOnFailure : Loop → ℤ
  | .process => -1
  | .thread => templateForkFailed

/-- A branch which has been killed runs until it dies. -/
def Branch.Runs (b : Branch) : Prop := b.status = .live ∨ b.status = .killed

instance (b : Branch) : Decidable b.Runs := inferInstanceAs (Decidable (_ ∨ _))

/-- What a step leads to, if it can be taken. -/
def step : Action → State → Option State
  | .wakeThread id, s =>
    match s.mcmini with
    | .holding pid => some { s with
        mcmini := .executing pid id
        childSideSem := (id, s.requests) ::ₘ s.childSideSem }
    | _ => none
  | .takeReport request, s =>
    match s.mcmini with
    | .executing pid id =>
      if (id, request) ∈ s.modelSideSem then
        some { s with mcmini := .holding pid, modelSideSem := s.modelSideSem.erase (id, request) }
      else none
    | _ => none
  | .destroy, s =>
    match s.mcmini with
    | .holding pid => some (s.destroyHandle pid)
    | _ => none
  | .resetSemaphores, s =>
    if s.mcmini = .destroyed then
      if 0 < s.sigchld then some { s with
        childSideSem := 0
        modelSideSem := 0
        sigchld := s.sigchld - 1
        mcmini := .threw .templateDied }
      else some { s with childSideSem := 0, modelSideSem := 0, mcmini := .requesting }
    else none
  | .postRequest, s =>
    if s.mcmini = .requesting then some { s with
      mcmini := .waitingForFork
      libmcminiSem := s.libmcminiSem + 1
      requests := s.requests + 1 }
    else none
  | .semWait, s =>
    if s.mcmini = .waitingForFork ∧ 0 < s.mcminiProcessSem then
      some { s with mcmini := .woken, mcminiProcessSem := s.mcminiProcessSem - 1 }
    else none
  | .makeHandle, s => if s.mcmini = .woken then some s.makeHandle else none
  | .takeRequest, s =>
    if s.template = .waitingForRequest ∧ 0 < s.libmcminiSem then some { s with
      template := .forking
      libmcminiSem := s.libmcminiSem - 1
      served := s.served + 1 }
    else none
  | .fork pid, s =>
    if s.template = .forking ∧ 0 < pid ∧ ∀ b ∈ s.branches, b.status ≠ .reaped → b.pid ≠ pid then
      some { s with
        template := .posting
        cpid := pid
        branches := { pid := pid, request := s.served } :: s.branches }
    else none
  | .forkFailed err, s =>
    if s.template = .forking then
      some { s with template := .posting, err := err, cpid := s.loop.storedOnFailure }
    else none
  | .postFork, s =>
    if s.template = .posting then
      some { s with template := .waitingForDeath, mcminiProcessSem := s.mcminiProcessSem + 1 }
    else none
  | .takeDeath, s =>
    if s.template = .waitingForDeath ∧ 0 < s.sigchldSem then
      some { s with template := .waitingForRequest, sigchldSem := s.sigchldSem - 1 }
    else none
  | .interrupt, s =>
    -- the loop of the process waits again when it is interrupted
    if s.loop = .thread ∧ s.template = .waitingForRequest ∧ s.templateHandler ≠ .idle then
      some { s with template := .forking }
    else none
  | .templateWaitpid i, s =>
    if s.templatePending ∧ s.templateHandler = .idle then
      match s.branches[i]? with
      | some b =>
        if b.status = .zombie then some { s with
          templatePending := false
          branches := s.branches.set i { b with status := .reaped }
          templateHandler := .forwarding (WaitStatus.signaled sigusr1).signalMcmini }
        else none
      | none => none
    else none
  | .templateKill, s =>
    match s.templateHandler with
    | .forwarding signalMcmini => some { s with
        sigchld := s.sigchld + signalMcmini.toNat
        templateHandler := .releasing }
    | _ => none
  | .templateSemPost, s =>
    if s.templateHandler = .releasing then
      some { s with templateHandler := .idle, sigchldSem := s.sigchldSem + 1 }
    else none
  | .takePermit i id request, s =>
    match s.branches[i]? with
    | some b =>
      if b.Runs ∧ b.owing = none ∧ (id, request) ∈ s.childSideSem then some { s with
        branches := s.branches.set i { b with owing := some id }
        childSideSem := s.childSideSem.erase (id, request) }
      else none
    | none => none
  | .postReport i, s =>
    match s.branches[i]? with
    | some b =>
      match b.owing with
      | some id =>
        if b.Runs then some { s with
          branches := s.branches.set i { b with owing := none }
          modelSideSem := (id, b.request) ::ₘ s.modelSideSem }
        else none
      | none => none
    | none => none
  | .die i, s =>
    match s.branches[i]? with
    | some b =>
      if b.status = .killed then some { s with
        branches := s.branches.set i { b with status := .zombie }
        templatePending := true }
      else none
    | none => none

/-- McMini before it creates its first branch. -/
def start (loop : Loop) : State := { loop := loop }

end Template

end McMini
