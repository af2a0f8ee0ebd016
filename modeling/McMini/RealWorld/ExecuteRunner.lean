import Mathlib.Data.Multiset.AddSub
import McMini.Foundation.Runs
import McMini.Model.State

/-!
# Waiting for a runner

`local_linux_process::execute_runner` gives a runner of the branch process a permit and waits
for its report on the mailbox's semaphore `model_side_sem`. So that it also notices when the
branch dies, the handler of `SIGCHLD`, which runs in McMini's signal thread, counts the signal
and posts the semaphore which was given to `set_sem` last. After each wait the main thread
looks at the counter: a counted signal means that the wait was woken by the handler.

A branch which the template process has forked is the template's child. Its death is first
seen by the template's handler `mc_template_receive_sigchld`, which reaps it and forwards a
`SIGCHLD`.

The parties take their steps in any order (`step`). A semaphore is the number of its units,
and the semaphores of the mailboxes are one multiset: the runner occurs once for each unit.
-/

namespace McMini

/-- How a process has ended (`WIFEXITED` and `WIFSIGNALED`). -/
inductive WaitStatus
  | exited (exitCode : ℤ)
  | signaled (signo : ℤ)
  deriving DecidableEq, Repr

/-- `is_bad_signal`: `SIGILL`, `SIGABRT`, `SIGBUS`, `SIGFPE`, `SIGKILL`, `SIGSEGV`, `SIGPIPE`
and `SIGSYS`. -/
def isBadSignal (signo : ℤ) : Bool := signo ∈ ([4, 6, 7, 8, 9, 11, 13, 31] : List ℤ)

/-- Whether the template's handler forwards the death of its child to McMini. -/
def WaitStatus.signalMcmini : WaitStatus → Bool
  | .exited _ => true
  | .signaled signo => isBadSignal signo

namespace ExecuteRunner

/-- Whose child the branch is. -/
inductive Parent
  | template | mcmini
  deriving DecidableEq, Repr

/-- The branch, as the kernel knows it. -/
inductive Branch
  | running
  | zombie (status : WaitStatus)
  | reaped
  deriving DecidableEq, Repr

/-- Where McMini's main thread is in `execute_runner`. -/
inductive Caller
  | idle
  /-- Before `mc_wake_thread`. -/
  | scheduling (id : RunnerId)
  /-- In `sig_semwait`. -/
  | waiting (id : RunnerId)
  /-- Before `try_consume_signal`. -/
  | woken (id : RunnerId)
  /-- Before the `waitpid` for the branch. -/
  | confirming (id : RunnerId)
  | threw (e : Failure)
  deriving DecidableEq, Repr

/-- Where the template's handler is. -/
inductive TemplateHandler
  | idle
  /-- The child is reaped. -/
  | forwarding (signalMcmini : Bool)
  | releasing
  deriving DecidableEq, Repr

structure State where
  caller : Caller := .idle
  /-- `signal_tracker::flags[SIGCHLD]`. -/
  sigchld : ℕ := 0
  /-- `signal_tracker::current_sem`, where it is the semaphore of a mailbox. -/
  currentSem : Option RunnerId := none
  modelSideSem : Multiset RunnerId := 0
  childSideSem : Multiset RunnerId := 0
  /-- A `SIGCHLD` is pending for McMini. -/
  pending : Bool := false
  /-- McMini's handler has counted a signal and is about to post. -/
  handling : Bool := false
  parent : Parent
  branch : Branch := .running
  /-- A `SIGCHLD` is pending for the template. -/
  templatePending : Bool := false
  templateHandler : TemplateHandler := .idle
  deriving DecidableEq

/-- The steps of the parties. -/
inductive Action
  /-- `execute_runner(id)` is called and gives `set_sem` the runner's semaphore. -/
  | setSem (id : RunnerId)
  | wakeThread | semWait | tryConsumeSignal | waitpid
  /-- The runner takes its permit and posts its report. -/
  | report (id : RunnerId)
  /-- `signal_tracker_sig_handler` is entered. -/
  | setSignal
  | semPost
  /-- A descendant of McMini dies which is not the branch. -/
  | otherDies
  | die (status : WaitStatus)
  /-- `mc_template_receive_sigchld` is entered. -/
  | templateWaitpid
  | templateKill | templateSemPost
  deriving DecidableEq, Repr

/-- The exception for a branch of whose end `waitpid` has told McMini. -/
def diagnosis (id : RunnerId) : WaitStatus → Failure
  | .exited exitCode =>
    if exitCode ≠ 0 then
      .nonzeroExitCodeError exitCode id ("The program exited with code " ++ toString exitCode)
    else .runtimeError ("Runner " ++ toString id ++
      "'s process exited normally (code 0) while a transition was still pending on it, " ++
      "bypassing the model-driven exit protocol.")
  | .signaled signo => .terminationError signo id
      ("Process terminated abnormally by signal " ++ toString signo)

/-- The `execution_error` thrown when `waitpid` fails with `ECHILD`. -/
def noSuchChild : Failure :=
  .runtimeError ("Error attempting to determine the failure causing the child process to " ++
    "abnormally exit (or possibly an internal error of McMini): No child processes")

/-- The `waitpid` of the main thread, which does not block. A process which is not a child of
McMini, or which has been waited for, is not found. -/
def State.waitpid (id : RunnerId) (s : State) : State :=
  match s.parent, s.branch with
  | .mcmini, .running => { s with caller := .waiting id }
  | .mcmini, .zombie status => { s with branch := .reaped, caller := .threw (diagnosis id status) }
  | _, _ => { s with caller := .threw noSuchChild }

/-- What a step leads to, if it can be taken. -/
def step : Action → State → Option State
  | .setSem id, s =>
    if s.caller = .idle then some { s with caller := .scheduling id, currentSem := some id }
    else none
  | .wakeThread, s =>
    match s.caller with
    | .scheduling id => some { s with caller := .waiting id, childSideSem := id ::ₘ s.childSideSem }
    | _ => none
  | .semWait, s =>
    match s.caller with
    | .waiting id =>
      if id ∈ s.modelSideSem then
        some { s with caller := .woken id, modelSideSem := s.modelSideSem.erase id }
      else none
    | _ => none
  | .tryConsumeSignal, s =>
    match s.caller with
    | .woken id =>
      if 0 < s.sigchld then some { s with caller := .confirming id, sigchld := s.sigchld - 1 }
      else some { s with caller := .idle }
    | _ => none
  | .waitpid, s =>
    match s.caller with
    | .confirming id => some (s.waitpid id)
    | _ => none
  | .report id, s =>
    if s.branch = .running ∧ id ∈ s.childSideSem then
      some { s with
        childSideSem := s.childSideSem.erase id
        modelSideSem := id ::ₘ s.modelSideSem }
    else none
  | .setSignal, s =>
    if s.pending ∧ ¬ s.handling then
      some { s with pending := false, handling := true, sigchld := s.sigchld + 1 }
    else none
  | .semPost, s =>
    if s.handling then
      some { s with handling := false, modelSideSem := s.currentSem.toList + s.modelSideSem }
    else none
  | .otherDies, s => some { s with pending := true }
  | .die status, s =>
    if s.branch = .running then
      match s.parent with
      | .template => some { s with branch := .zombie status, templatePending := true }
      | .mcmini => some { s with branch := .zombie status, pending := true }
    else none
  | .templateWaitpid, s =>
    if s.templatePending ∧ s.templateHandler = .idle then
      match s.parent, s.branch with
      | .template, .running => none
      | .template, .zombie status => some { s with
          templatePending := false
          branch := .reaped
          templateHandler := .forwarding status.signalMcmini }
      | _, _ => some { s with templatePending := false }
    else none
  | .templateKill, s =>
    match s.templateHandler with
    | .forwarding signalMcmini => some { s with
        pending := s.pending || signalMcmini
        templateHandler := .releasing }
    | _ => none
  | .templateSemPost, s =>
    if s.templateHandler = .releasing then some { s with templateHandler := .idle } else none

end ExecuteRunner

end McMini
