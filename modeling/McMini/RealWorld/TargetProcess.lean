import McMini.RealWorld.TargetThread

/-!
# The threads of a target process

The threads of a process share the mode and the `pthread_map`. Each entry of the map has two
semaphores with which a thread which ends and the one which joins it wait for each other: before it
really ends, a thread waits on its `exit_permission_sem`, which a join posts; and a join which
cannot wait for the real end waits on `really_exited_sem`, which the thread posts then.

McMini runs one thread at a time. It executes a `thread_join` only when the target has exited in
the model, and never the exit of the main thread.
-/

namespace McMini.TargetProcess

open TargetThread (Mode PthreadMapEntry)

structure State where
  mode : Mode
  /-- `mc_exit_main_thread_in_child` has been installed with `atexit`. -/
  atExit : Bool
  /-- The threads, by their runner's id. There is none where a thread has ended before the
  checkpoint. -/
  threads : List (Option TargetThread.State)
  /-- The latest entry for each handle. -/
  pthreadMap : Addr → Option PthreadMapEntry
  /-- The semaphores `exit_permission_sem` and `really_exited_sem` of each thread. -/
  exitPermission : RunnerId → ℕ := fun _ => 0
  reallyExited : RunnerId → ℕ := fun _ => 0
  /-- The runner which McMini executes. -/
  scheduled : Option RunnerId := none
  /-- The runners which have exited in the model. -/
  exited : RunnerId → Bool

inductive Action
  /-- A step of a thread, or one of McMini with it. -/
  | thread (p : RunnerId) (a : TargetThread.Action)
  /-- The mode of the process changes. -/
  | changeMode
  /-- A thread which has been created registers, with its handle. -/
  | register (handle : Addr) (recreated : Bool)
  deriving DecidableEq, Repr

namespace State

variable (s : State)

def thread (p : RunnerId) : Option TargetThread.State := s.threads[p]?.join

/-- What does not change in the life of the thread. -/
def kind (p : RunnerId) : TargetThread.Thread := ⟨p = ridMainThread, s.atExit⟩

def setThread (p : RunnerId) (st : TargetThread.State) : State :=
  { s with threads := s.threads.set p (some st) }

/-- The runner with the handle. -/
def runnerOf (handle : Addr) : RunnerId := ((s.pthreadMap handle).map (·.value)).getD ridInvalid

/-- The thread has really ended. -/
def hasEnded (p : RunnerId) : Bool := (s.thread p).any fun st => st.log.contains (.rest .ends)

/-- Whether the next instruction of the thread may be executed now. -/
def instructionReady (p : RunnerId) (st : TargetThread.State) : Bool :=
  match st.code with
  | .waitForExitPermission :: _ => 0 < s.exitPermission p
  | .lib (.join t) :: _ => s.hasEnded (s.runnerOf t)
  | .lib (.waitReallyExited t) :: _ => 0 < s.reallyExited (s.runnerOf t)
  | _ => true

/-- What the operation of a runner requires for McMini to execute it, as far as exits are
concerned. -/
def grants (p : RunnerId) : Option MailboxContents → Bool
  | some (.threadJoin target) => s.exited target
  | some .threadExit => p ≠ ridMainThread
  | _ => true

/-- What the other threads and McMini let the thread do. -/
def allows (p : RunnerId) (st : TargetThread.State) : TargetThread.Action → Bool
  | .call (.join t entry) => entry = s.pthreadMap t
  | .call _ | .createFails | .receive => true
  | .advance => s.instructionReady p st
  | .hangs =>
    match st.code with
    -- these depend on the thread which is joined
    | .lib (.join _) :: _ | .lib (.waitReallyExited _) :: _ => false
    | _ => true
  | .changeMode => false
  | .executeRunner => s.scheduled = none && s.grants p st.pending

/-- What the next instruction of the thread does to the semaphores. -/
def execute (p : RunnerId) (st : TargetThread.State) : State :=
  match st.code with
  | .waitForExitPermission :: _ =>
    { s with exitPermission := Function.update s.exitPermission p (s.exitPermission p - 1) }
  | .lib (.postExitPermission t) :: _ =>
    let q := s.runnerOf t
    { s with exitPermission := Function.update s.exitPermission q (s.exitPermission q + 1) }
  | .lib .postReallyExited :: _ =>
    { s with reallyExited := Function.update s.reallyExited p (s.reallyExited p + 1) }
  | .lib (.waitReallyExited t) :: _ =>
    let q := s.runnerOf t
    { s with reallyExited := Function.update s.reallyExited q (s.reallyExited q - 1) }
  | _ => s

/-- What a step of the thread does to the rest of the process and to McMini. -/
def effect (p : RunnerId) (st : TargetThread.State) : TargetThread.Action → State
  | .advance => s.execute p st
  | .executeRunner => { s with scheduled := some p }
  | .receive => { s with
      scheduled := none
      exited := Function.update s.exited p (s.exited p || st.pending.any TargetThread.exits) }
  | .call _ | .createFails | .hangs | .changeMode => s

end State

/-- What an action leads to, if it can be taken. -/
def step : Action → State → Option State
  | .thread p a, s => (s.thread p).bind fun st =>
    if s.allows p st a then
      (TargetThread.step (s.kind p) a st).map fun st' => (s.effect p st a).setThread p st'
    else none
  | .changeMode, s =>
    if s.mode.isInRestartMode ∧ ∀ st ∈ s.threads.reduceOption, st.code = [] ∨ st.hasCheckedIn then
      some { s with
        mode := .targetBranchAfterRestart
        threads := s.threads.map (Option.map fun st => { st with mode := .targetBranchAfterRestart }) }
    else none
  | .register handle recreated, s =>
    let p := s.threads.length
    some { s with
      threads := s.threads ++ [some (TargetThread.start s.mode)]
      pthreadMap := Function.update s.pthreadMap handle
        (some ⟨p, s.mode = .targetBranchAfterRestart, recreated⟩)
      exited := Function.update s.exited p false }

/-- A process which starts, or which goes on after a restart with the threads which have not
ended. -/
structure State.Initial (s : State) : Prop where
  threads : ∀ st, some st ∈ s.threads → st = TargetThread.start s.mode
  exitPermission : s.exitPermission = fun _ => 0
  reallyExited : s.reallyExited = fun _ => 0
  scheduled : s.scheduled = none
  exited : ∀ p st, s.thread p = some st → s.exited p = false

end McMini.TargetProcess
