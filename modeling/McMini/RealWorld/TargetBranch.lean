import McMini.Properties.Exploration
import McMini.RealWorld.TargetThread

/-!
# A branch with its semaphores

The threads of a branch, the semaphores in its memory and the coordinator. The threads run as in
`McMini/RealWorld/TargetThread.lean`. When a thread calls a function of the thread library, the
semaphores change as this function says; they count without a bound. McMini lets one thread run at
a time, and executes the operation which was pending in the model when the thread has reported its
next one.
-/

namespace McMini.TargetBranch

open TargetThread (LibCall Instr)

/-! ### The semaphores -/

/-- The values of the semaphores, and which addresses `mc_sem_init` has initialized. -/
structure Semaphores where
  value : Addr → ℕ
  initialized : Addr → Bool

/-- What a function of the thread library does to the semaphores. -/
def Semaphores.call (s : Semaphores) : LibCall → Semaphores
  | .semInit sem count =>
    ⟨Function.update s.value sem count.toNat, Function.update s.initialized sem true⟩
  | .semPost sem => ⟨Function.update s.value sem (s.value sem + 1), s.initialized⟩
  | .semDestroy sem => ⟨s.value, Function.update s.initialized sem false⟩
  | .mutexInit _ | .mutexLock _ | .mutexUnlock _ | .join _ | .postExitPermission _
  | .waitReallyExited _ | .postReallyExited => s

/-! ### The branch -/

structure State where
  /-- `mc_exit_main_thread_in_child` has been installed with `atexit`. -/
  atExit : Bool
  coordinator : Coordinator
  /-- A thread which has not been created yet waits for its first permit. -/
  threads : RunnerId → TargetThread.State
  semaphores : Semaphores
  /-- The runner which McMini executes. -/
  scheduled : Option RunnerId := none

/-- A step of a thread, or one of McMini with it. -/
structure Action where
  thread : RunnerId
  act : TargetThread.Action
  deriving DecidableEq, Repr

namespace State

variable (s : State) (p : RunnerId)

/-- What does not change in the life of the thread. -/
def kind : TargetThread.Thread := ⟨p = ridMainThread, s.atExit⟩

/-- The semaphores when the thread has executed its next instruction. -/
def execute : Semaphores :=
  match (s.threads p).code with
  | .lib f :: _ => s.semaphores.call f
  | _ => s.semaphores

end State

/-- What an action leads to, if it can be taken. -/
def step (a : Action) (s : State) : Option State :=
  let p := a.thread
  match a.act with
  | .executeRunner =>
    if s.scheduled = none then
      (TargetThread.step (s.kind p) .executeRunner (s.threads p)).map fun st =>
        ⟨s.atExit, s.coordinator, Function.update s.threads p st, s.semaphores, some p⟩
    else none
  | .receive => do
    let st ← TargetThread.step (s.kind p) .receive (s.threads p)
    let contents ← (s.threads p).mailbox
    let coordinator ← executeStep (fun _ _ => .ok contents) p s.coordinator
    return ⟨s.atExit, coordinator, Function.update s.threads p st, s.semaphores, none⟩
  | .advance =>
    (TargetThread.step (s.kind p) .advance (s.threads p)).map fun st =>
      ⟨s.atExit, s.coordinator, Function.update s.threads p st, s.execute p, s.scheduled⟩
  -- the mode has changed when the branch begins
  | .changeMode => none
  | .call c =>
    (TargetThread.step (s.kind p) (.call c) (s.threads p)).map fun st =>
      ⟨s.atExit, s.coordinator, Function.update s.threads p st, s.semaphores, s.scheduled⟩
  | .createFails =>
    (TargetThread.step (s.kind p) .createFails (s.threads p)).map fun st =>
      ⟨s.atExit, s.coordinator, Function.update s.threads p st, s.semaphores, s.scheduled⟩
  | .hangs =>
    (TargetThread.step (s.kind p) .hangs (s.threads p)).map fun st =>
      ⟨s.atExit, s.coordinator, Function.update s.threads p st, s.semaphores, s.scheduled⟩

/-! ### Where a branch begins -/

/-- A thread which begins in the branch, or which was there at the checkpoint and has checked in
before the mode changed. -/
inductive Begins (t : TargetThread.Thread) : TargetThread.State → Prop
  | start {mode : TargetThread.Mode} (hmode : mode.isInRestartMode = false) :
      Begins t (TargetThread.start mode)
  | checkedIn {mode : TargetThread.Mode} {acts : List TargetThread.Action}
      {st : TargetThread.State} (hmode : mode.isInRestartMode = true)
      (hrun : Foundation.runFrom (TargetThread.step t) (TargetThread.start mode) acts = some st)
      (hacts : .changeMode ∉ acts) (hchecked : st.hasCheckedIn = true) :
      Begins t { st with mode := .targetBranchAfterRestart }

end McMini.TargetBranch
