import McMini.Foundation.Runs
import McMini.Model.Coordinator

/-!
# The threads of a branch

Threads are numbered twice. In the target, `mc_register_this_thread` gives each thread the next
value of a counter, and keeps it in a list of handles to which entries are only added. In
McMini, the callback for a thread creation asks the coordinator for the runner at the new
thread's handle, which the model adds when the handle is not known.

The handles come from the thread library. POSIX only promises that a handle is not given to two
threads one of which has not been joined when the other is created.

McMini executes one runner at a time (`step`): the runner performs the operation it has reported
last, and runs on to the next one, which it reports. A thread which it creates there registers
before the report.
-/

namespace McMini.Threads

/-- A thread as POSIX has it. -/
structure PosixThread where
  handle : Addr
  /-- The runner which its creator was told to create. -/
  runner : RunnerId
  joined : Bool := false
  deriving DecidableEq, Repr

structure State where
  coordinator : Coordinator
  /-- `pthread_map`, the latest entry first. -/
  pthreadMap : List (Addr × RunnerId)
  /-- `tid_next`. -/
  tidNext : RunnerId
  /-- All threads, in the order of their creation. -/
  threads : List PosixThread
  /-- The handle of the thread which a runner is about to join. -/
  joining : RunnerId → Option Addr := fun _ => none

/-- The operation a runner runs on to. -/
inductive Operation
  /-- `mc_pthread_create`, which returns the handle. -/
  | create (handle : Addr)
  | join (handle : Addr)
  | exit
  deriving DecidableEq, Repr

/-- McMini executes a runner, which runs on to an operation. -/
structure Call where
  runner : RunnerId
  operation : Operation
  deriving DecidableEq, Repr

/-- `search_pthread_map`. -/
def State.searchPthreadMap (s : State) (t : Addr) : RunnerId :=
  match s.pthreadMap.find? (·.1 = t) with
  | some entry => entry.2
  | none => ridInvalid

/-- `mc_register_this_thread`, called by the thread with the handle. -/
def State.registerThisThread (s : State) (handle : Addr) : State :=
  { s with
    tidNext := (s.tidNext + 1) % 65536
    pthreadMap := (handle, s.tidNext) :: s.pthreadMap }

/-- The thread which the handle denotes. -/
def State.Denotes (s : State) (handle : Addr) (t : PosixThread) : Prop :=
  t ∈ s.threads ∧ t.handle = handle ∧ t.joined = false

instance (s : State) (handle : Addr) (t : PosixThread) : Decidable (s.Denotes handle t) :=
  inferInstanceAs (Decidable (_ ∧ _ ∧ _))

def PosixThread.join (handle : Addr) (t : PosixThread) : PosixThread :=
  if t.handle = handle then { t with joined := true } else t

/-- The runner performs the join it has reported, if it has. -/
def State.performJoin (s : State) (p : RunnerId) : State :=
  match s.joining p with
  | some handle => { s with
      threads := s.threads.map (·.join handle)
      joining := Function.update s.joining p none }
  | none => s

/-- `coordinator::execute_runner`, when the runner reports the contents. -/
def State.report (s : State) (p : RunnerId) (contents : MailboxContents) : Option State :=
  match (executeRunner (fun _ _ => .ok contents) p).run s.coordinator with
  | (.ok _, c) => some { s with coordinator := c }
  | (.error _, _) => none

/-- The runner which a pending transition creates. -/
def State.createdBy (s : State) (p : RunnerId) : Option RunnerId :=
  (s.coordinator.currentProgramModel.nextSteps.lookup p).bind (·.op.created)

/-- What a call leads to. It is not made if the thread library cannot give the handle, or if
the handle to be joined denotes no thread. -/
def step (call : Call) (s : State) : Option State :=
  let s := s.performJoin call.runner
  match call.operation with
  | .create handle =>
    if ∃ t ∈ s.threads, t.handle = handle ∧ t.joined = false then none
    else
      ((s.registerThisThread handle).report call.runner (.threadCreate handle)).bind fun s =>
        (s.createdBy call.runner).map fun runner =>
          { s with threads := s.threads ++ [⟨handle, runner, false⟩] }
  | .join handle =>
    if ∃ t ∈ s.threads, t.handle = handle ∧ t.joined = false then
      (s.report call.runner (.threadJoin (s.searchPthreadMap handle))).map fun s =>
        { s with joining := Function.update s.joining call.runner (some handle) }
    else none
  | .exit => s.report call.runner .threadExit

/-- A branch at `main`, where the main thread has registered. -/
def start (main : Addr) : State where
  coordinator := ⟨.startingFromMain, ∅, []⟩
  pthreadMap := [(main, ridMainThread)]
  tidNext := 1
  threads := [⟨main, ridMainThread, false⟩]

/-- The handles of the threads which have been created, the main thread aside. -/
def createdHandles (calls : List Call) : List Addr :=
  calls.filterMap fun call =>
    match call.operation with
    | .create handle => some handle
    | _ => none

end McMini.Threads
