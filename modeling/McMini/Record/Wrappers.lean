import Mathlib.Logic.Function.Basic
import McMini.Foundation.Runs
import McMini.Record.Objects

/-!
# The wrappers under the recorder

In `RECORD` mode a wrapper calls the real function of the thread library and notes in the
object's record what has happened. The call and the note are separate steps, between which the
other threads run: each call of a `libpthread_*` function is one step, and so is each section
which is guarded by `rec_list_lock`. Only `libpthread_cond_timedwait` takes several: it gives the
mutex up and blocks, wakes up, and takes the mutex back, for as long as that takes.

A wrapper does not block for good. Its calls time out, and the loop around them ends once the
process has been restarted from a checkpoint: then the thread goes to
`thread_handle_after_dmtcp_restart`, where it posts `dmtcp_restart_sem` and is parked until the
model checker gives it a permit. A call which is made after the restart goes there at once.

What a signal wakes is not part of the model, since a thread may always wake up spuriously.
-/

namespace McMini.Record

/-- The wrappers which a thread may call. Returning from its start routine is one of them. -/
inductive Operation
  | mutexLock (mutex : Addr)
  | mutexUnlock (mutex : Addr)
  | condWait (cond mutex : Addr)
  | condSignal (cond : Addr)
  | condBroadcast (cond : Addr)
  | semWait (sem : Addr)
  | semPost (sem : Addr)
  | join (t : RunnerId)
  | exit
  deriving DecidableEq, Repr

/-- What `libpthread_cond_timedwait` returns. -/
inductive ReturnCode
  | ok | timedOut | error
  deriving DecidableEq, Repr

/-- Where a thread is. -/
inductive Pc
  | outside
  /-- At the first section of the wrapper. -/
  | entered (op : Operation)
  /-- Before `libpthread_mutex_timedlock`. -/
  | lock (mutex : Addr)
  /-- The mutex is taken. -/
  | locked (mutex : Addr)
  | lockTimedOut (mutex : Addr)
  /-- Before `libpthread_mutex_unlock`. -/
  | unlock (mutex : Addr)
  /-- The mutex is given up. -/
  | unlocked (mutex : Addr)
  /-- Before `libpthread_cond_timedwait`. -/
  | wait (cond mutex : Addr)
  /-- Inside `libpthread_cond_timedwait`. -/
  | blocked (cond mutex : Addr)
  /-- Inside `libpthread_cond_timedwait`, taking the mutex back. -/
  | reacquiring (cond mutex : Addr) (rc : ReturnCode)
  /-- `libpthread_cond_timedwait` has returned. -/
  | returned (cond mutex : Addr) (rc : ReturnCode)
  | signal (cond : Addr)
  | signaled (cond : Addr)
  | broadcast (cond : Addr)
  | broadcasted (cond : Addr)
  | semWait (sem : Addr)
  | semTaken (sem : Addr)
  | semPost (sem : Addr)
  | semPosted (sem : Addr)
  | join (t : RunnerId)
  | joined (t : RunnerId)
  | joinTimedOut (t : RunnerId)
  | finished
  /-- Before the post in `thread_handle_after_dmtcp_restart`, and the loop which was left. -/
  | checkIn (left : Option Operation)
  /-- In `thread_handle_after_dmtcp_restart`, after the post. -/
  | parked (left : Option Operation)
  deriving DecidableEq, Repr

/-- The thread which holds a mutex, and how it got it. -/
structure Holder where
  thread : RunnerId
  /-- `libpthread_cond_timedwait` has taken the mutex back. -/
  reacquired : Bool
  deriving DecidableEq, Repr

structure State where
  /-- `is_in_restart_mode`. -/
  restarting : Bool := false
  pc : RunnerId → Pc := fun _ => .outside
  mutexRecords : Addr → Option MutexRecord := fun _ => none
  semaphoreRecords : Addr → Option SemaphoreRecord := fun _ => none
  conditionVariableRecords : Addr → Option ConditionVariableRecord := fun _ => none
  threadRecords : RunnerId → Option ThreadStatus
  /-- Who really holds a mutex. -/
  holder : Addr → Option Holder := fun _ => none
  /-- What a semaphore really counts. -/
  semaphores : Addr → ℕ := fun _ => 0
  /-- The threads inside `mc_pthread_cond_wait`, in the order of their arrival. -/
  waiters : Addr → List RunnerId := fun _ => []

namespace State

variable (s : State) (p : RunnerId)

def goTo (pc : Pc) : State := { s with pc := Function.update s.pc p pc }

def setMutexRecord (mutex : Addr) (r : MutexRecord) : State :=
  { s with mutexRecords := Function.update s.mutexRecords mutex (some r) }

def setSemaphoreRecord (sem : Addr) (r : SemaphoreRecord) : State :=
  { s with semaphoreRecords := Function.update s.semaphoreRecords sem (some r) }

def setConditionVariableRecord (cond : Addr) (r : ConditionVariableRecord) : State :=
  { s with conditionVariableRecords := Function.update s.conditionVariableRecords cond (some r) }

def setThreadRecord (t : RunnerId) (status : ThreadStatus) : State :=
  { s with threadRecords := Function.update s.threadRecords t (some status) }

def setHolder (mutex : Addr) (holder : Option Holder) : State :=
  { s with holder := Function.update s.holder mutex holder }

def setSemaphore (sem : Addr) (count : ℕ) : State :=
  { s with semaphores := Function.update s.semaphores sem count }

def setWaiters (cond : Addr) (waiters : List RunnerId) : State :=
  { s with waiters := Function.update s.waiters cond waiters }

/-- The record of a mutex, which is added if there is none. -/
def mutexRecord (mutex : Addr) : MutexRecord :=
  (s.mutexRecords mutex).getD ⟨.uninitialized, ridInvalid⟩

/-- The record of a semaphore, which is added if there is none. -/
def semaphoreRecord (sem : Addr) : SemaphoreRecord :=
  (s.semaphoreRecords sem).getD ⟨BitVec.ofNat 32 (s.semaphores sem), .initialized⟩

/-- The record of a condition variable, which is added if there is none. -/
def conditionVariableRecord (cond mutex : Addr) : ConditionVariableRecord :=
  (s.conditionVariableRecords cond).getD { interactingThread := p, associatedMutex := mutex }

/-- The first section of a wrapper, which is guarded by `rec_list_lock`. The process is aborted
where an unknown mutex is unlocked, and where an unknown thread is joined. -/
def enter : Operation → Option State
  | .mutexLock mutex => some ((s.setMutexRecord mutex (s.mutexRecord mutex)).goTo p (.lock mutex))
  | .mutexUnlock mutex =>
    if (s.mutexRecords mutex).isSome then some (s.goTo p (.unlock mutex)) else none
  | .condWait cond mutex => some
      (((s.setConditionVariableRecord cond
        ((s.conditionVariableRecord p cond mutex).enterWait p mutex)).setWaiters cond
          (s.waiters cond ++ [p])).goTo p (.wait cond mutex))
  | .condSignal cond => some
      ((s.setConditionVariableRecord cond (s.conditionVariableRecord p cond 0).beforeSignal).goTo p
        (.signal cond))
  | .condBroadcast cond => some
      ((s.setConditionVariableRecord cond (s.conditionVariableRecord p cond 0)).goTo p
        (.broadcast cond))
  | .semWait sem => some
      ((s.setSemaphoreRecord sem (s.semaphoreRecord sem)).goTo p (.semWait sem))
  | .semPost sem => some
      ((s.setSemaphoreRecord sem (s.semaphoreRecord sem)).goTo p (.semPost sem))
  | .join t => if (s.threadRecords t).isSome then some (s.goTo p (.join t)) else none
  | .exit => some ((s.setThreadRecord p .exited).goTo p .finished)

/-- A loop whose call has timed out is left after a restart. -/
def retry (op : Operation) (pc : Pc) : State :=
  if s.restarting then s.goTo p (.checkIn (some op)) else s.goTo p pc

/-- The next step of a wrapper, when its call succeeds. -/
def proceed : Option State :=
  match s.pc p with
  | .entered op => s.enter p op
  | .lock mutex =>
    if s.holder mutex = none then some ((s.setHolder mutex (some ⟨p, false⟩)).goTo p (.locked mutex))
    else none
  | .locked mutex => some ((s.setMutexRecord mutex ⟨.locked, p⟩).goTo p .outside)
  | .lockTimedOut mutex => some (s.retry p (.mutexLock mutex) (.lock mutex))
  | .unlock mutex =>
    if (s.holder mutex).map (·.thread) = some p then
      some ((s.setHolder mutex none).goTo p (.unlocked mutex))
    else none
  | .unlocked mutex => some ((s.setMutexRecord mutex ⟨.unlocked, ridInvalid⟩).goTo p .outside)
  | .wait cond mutex =>
    if (s.holder mutex).map (·.thread) = some p then
      some ((s.setHolder mutex none).goTo p (.blocked cond mutex))
    else none
  | .blocked cond mutex => some (s.goTo p (.reacquiring cond mutex .ok))
  | .reacquiring cond mutex rc =>
    if s.holder mutex = none then
      some ((s.setHolder mutex (some ⟨p, true⟩)).goTo p (.returned cond mutex rc))
    else none
  | .returned cond _ .ok =>
    (s.conditionVariableRecords cond).bind fun r => (r.leaveWait p).map fun r =>
      ((s.setConditionVariableRecord cond r).setWaiters cond ((s.waiters cond).erase p)).goTo p
        .outside
  | .returned cond mutex .timedOut => some (s.retry p (.condWait cond mutex) (.wait cond mutex))
  | .returned cond _ .error => some
      ((s.setWaiters cond ((s.waiters cond).erase p)).goTo p .outside)
  | .signal cond => some (s.goTo p (.signaled cond))
  | .signaled cond => (s.conditionVariableRecords cond).map fun r =>
      (s.setConditionVariableRecord cond r.afterSignal).goTo p .outside
  | .broadcast cond => some (s.goTo p (.broadcasted cond))
  | .broadcasted cond => (s.conditionVariableRecords cond).map fun r =>
      (s.setConditionVariableRecord cond r.afterBroadcast).goTo p .outside
  | .semWait sem =>
    if 0 < s.semaphores sem then
      some ((s.setSemaphore sem (s.semaphores sem - 1)).goTo p (.semTaken sem))
    else none
  | .semTaken sem => (s.semaphoreRecords sem).map fun r =>
      (s.setSemaphoreRecord sem { r with count := r.count - 1 }).goTo p .outside
  | .semPost sem => some ((s.setSemaphore sem (s.semaphores sem + 1)).goTo p (.semPosted sem))
  | .semPosted sem => (s.semaphoreRecords sem).map fun r =>
      (s.setSemaphoreRecord sem { r with count := r.count + 1 }).goTo p .outside
  | .join t => if s.pc t = .finished then some (s.goTo p (.joined t)) else none
  | .joined t => some ((s.setThreadRecord t .exited).goTo p .outside)
  | .joinTimedOut t => some (s.retry p (.join t) (.join t))
  | .checkIn left => some (s.goTo p (.parked left))
  | .outside | .finished | .parked _ => none

/-- The call of a wrapper times out. `libpthread_sem_timedwait` then returns `-1`, which is not
`ETIMEDOUT`, and `mc_sem_wait` returns. -/
def timeOut : Option State :=
  match s.pc p with
  | .lock mutex => some (s.goTo p (.lockTimedOut mutex))
  | .blocked cond mutex => some (s.goTo p (.reacquiring cond mutex .timedOut))
  | .semWait _ => some (s.goTo p .outside)
  | .join t => some (s.goTo p (.joinTimedOut t))
  | _ => none

/-- The call of a wrapper fails, and the wrapper returns. -/
def fail : Option State :=
  match s.pc p with
  | .lock _ | .unlock _ | .signal _ | .broadcast _ | .semWait _ | .semPost _ | .join _ =>
    some (s.goTo p .outside)
  | .wait cond mutex => some (s.goTo p (.returned cond mutex .error))
  | .blocked cond mutex => some (s.goTo p (.reacquiring cond mutex .error))
  | _ => none

section Fields

variable {s p} {q : RunnerId} {pc : Pc} {m m' : Addr} {h : Option Holder} {r : MutexRecord}

@[simp, grind =]
theorem goTo_pc : (s.goTo p pc).pc q = if q = p then pc else s.pc q := Function.update_apply ..

@[simp, grind =]
theorem goTo_holder : (s.goTo p pc).holder m = s.holder m := rfl

@[simp, grind =]
theorem goTo_mutexRecords : (s.goTo p pc).mutexRecords m = s.mutexRecords m := rfl

@[simp, grind =]
theorem setHolder_pc : (s.setHolder m h).pc q = s.pc q := rfl

@[simp, grind =]
theorem setHolder_holder : (s.setHolder m h).holder m' = if m' = m then h else s.holder m' :=
  Function.update_apply ..

@[simp, grind =]
theorem setHolder_mutexRecords : (s.setHolder m h).mutexRecords m' = s.mutexRecords m' := rfl

@[simp, grind =]
theorem setMutexRecord_pc : (s.setMutexRecord m r).pc q = s.pc q := rfl

@[simp, grind =]
theorem setMutexRecord_holder : (s.setMutexRecord m r).holder m' = s.holder m' := rfl

@[simp, grind =]
theorem setMutexRecord_mutexRecords :
    (s.setMutexRecord m r).mutexRecords m' = if m' = m then some r else s.mutexRecords m' :=
  Function.update_apply ..

end Fields

end State

/-- The steps of the threads, and the restart of the process. -/
inductive Action
  | call (p : RunnerId) (op : Operation)
  | proceed (p : RunnerId)
  | timeOut (p : RunnerId)
  | fail (p : RunnerId)
  | restart
  deriving DecidableEq, Repr

/-- The thread which takes the step. -/
def Action.actor : Action → Option RunnerId
  | .call p _ | .proceed p | .timeOut p | .fail p => some p
  | .restart => none

/-- What a step leads to, if it can be taken. -/
def step : Action → State → Option State
  | .call p op, s =>
    if s.threadRecords p = some .alive ∧ s.pc p = .outside then
      some (s.goTo p (if s.restarting then .checkIn none else .entered op))
    else none
  | .proceed p, s => s.proceed p
  | .timeOut p, s => s.timeOut p
  | .fail p, s => s.fail p
  | .restart, s => some { s with restarting := true }

/-- Outside of the wrappers, or blocked inside `libpthread_cond_timedwait`, or on the way to
`thread_handle_after_dmtcp_restart`. -/
def Pc.isQuiescent : Pc → Bool
  | .outside | .finished | .blocked .. | .reacquiring .. | .checkIn _ | .parked _ => true
  | _ => false

def State.Quiescent (s : State) : Prop := ∀ p, (s.pc p).isQuiescent = true

/-- The recorded threads are outside of the wrappers, and there are no other records. -/
def start (threads : RunnerId → Option ThreadStatus) (semaphores : Addr → ℕ) : State :=
  { threadRecords := threads, semaphores }

/-- The threads `0` and `1` of a program. -/
def twoThreads : State := start (fun p => if p < 2 then some .alive else none) fun _ => 0

end McMini.Record
