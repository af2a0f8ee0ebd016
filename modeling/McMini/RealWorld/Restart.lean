import McMini.Foundation.Gate
import McMini.RealWorld.TargetThread
import McMini.RealWorld.Transfer

/-!
# After a restart

`DMTCP_EVENT_RESTART` sets the mode and wakes the template thread. Each thread of the restarted
program gets into `thread_handle_after_dmtcp_restart` from the wrapper it is in, or calls next. It
saves its context in a `threadinfo` of its own and posts `dmtcp_restart_sem`, which the template
thread waits for as many times as it has counted threads recorded as alive.

Before it gets there, a thread may create others. A new thread records itself before it runs, and
a thread which was about to end when the checkpoint was taken marks its record and is gone. A
wrapper which was recording an object goes on with that first.

A program which has been restarted into a template is then forked whenever McMini requests it. The
new process, a branch, is a copy of the memory in which only the template thread runs on. It creates
the other threads anew, one for each `threadinfo`, and these continue with the saved contexts. They
wait on `template_thread_cond`, as the threads of the template do, until the template thread of the
branch has set the mode and broadcasts.

The threads of the program are numbered, in a branch in the order of their creation. After they have
reached `thread_await_scheduler` they are not followed. A branch which has died takes no step.
-/

namespace McMini

namespace Restart

open Foundation TargetThread Transfer

/-- The local variables of `thread_handle_after_dmtcp_restart`. -/
structure Locals where
  modeOnEntry : Mode
  origPid : ℤ
  origThreadIdx : ℕ
  deriving DecidableEq, Repr

/-- `struct threadinfo`. -/
structure ThreadInfo where
  /-- `origTid` is not 0. -/
  valid : Bool := false
  pthreadDescriptor : Addr := 0
  /-- What `getcontext` has saved. -/
  context : Option Locals := none
  deriving DecidableEq, Repr

/-- The size of `threadInfos`. -/
def maxThreadInfos : ℕ := 1000

/-- Where a thread is in `thread_handle_after_dmtcp_restart` after it has got its index. -/
inductive Place
  | allocated
  /-- Its `threadinfo` has been set to zeros. -/
  | cleared
  /-- `saveThreadStateBeforeFork` has returned. -/
  | described
  /-- `getcontext` has returned, for the first time or in a branch. -/
  | saved
  /-- Before the `switch`. -/
  | switching
  | locking
  /-- With `template_thread_mut`, before it reads the mode. -/
  | testing
  | waiting
  /-- Its wait has ended, and it takes the mutex back. -/
  | reacquiring
  | unlocking
  /-- In `thread_await_scheduler`. -/
  | awaiting
  /-- `libc_abort` has been called. -/
  | aborted
  deriving DecidableEq, Repr

inductive UserPc
  /-- In `mc_thread_routine_wrapper`, before `mc_register_this_thread`. -/
  | starting
  /-- Before it reads the mode. -/
  | registered (id : RunnerId)
  /-- It has found that it has to record itself. -/
  | recording (id : RunnerId)
  /-- It has run its routine, and found that it has to mark its record. -/
  | ending
  | ended
  /-- In `mc_pthread_exit`, which has found that the thread is only recorded. -/
  | leaving
  /-- It has ended, and its record has not been marked. -/
  | left
  /-- In `mc_pthread_create`, until the new thread has recorded itself. -/
  | creating (child : ℕ)
  /-- In a wrapper or on the way to one, before it reads the mode. -/
  | outside
  /-- The wrapper has not found a restart mode. -/
  | elsewhere
  /-- Before it reads `mode_on_entry`. -/
  | entering
  | entered (modeOnEntry : Mode)
  | handling (l : Locals) (place : Place)
  /-- Its index is beyond the end of `threadInfos`. -/
  | overflowed
  /-- It was created without a saved context. -/
  | crashed
  /-- There is a record of it already, or there is none. -/
  | assertionFailed
  deriving DecidableEq, Repr

/-- The thread has not recorded itself. -/
def UserPc.isNew : UserPc → Bool
  | .starting | .registered _ | .recording _ => true
  | _ => false

/-- A thread of the program. -/
structure User where
  pthreadDescriptor : Addr
  pc : UserPc
  deriving DecidableEq, Repr

/-- Where the template thread is. -/
inductive TemplatePc
  /-- Waits on `template_thread_sem`. -/
  | sleeping
  /-- Waits on `dmtcp_restart_sem`, this many times more. -/
  | barrier (left : ℕ)
  /-- Before its first post of `mcmini_process_sem`. -/
  | publishing
  | waitingForRequest
  /-- Waits on `sigchld_sem`. -/
  | waitingForDeath
  /-- In the loop of `restart_child_threads_fast`. -/
  | recreating (i maxThreadIdx : ℕ)
  /-- Before it sets the mode of the branch. -/
  | opening
  | locking
  | broadcasting
  | unlocking
  /-- With the transfer of the state ahead, if McMini needs it. -/
  | finished
  deriving DecidableEq, Repr

/-- The threads of the program, and what the library has recorded. -/
structure Recording where
  /-- `head_record_mode`. -/
  recList : List RecordedObject
  /-- `tid_next`. -/
  tidNext : RunnerId
  users : List User
  deriving DecidableEq, Repr

structure Process extends Recording where
  pid : ℤ
  /-- `libmcmini_mode`. -/
  mode : Mode
  threadIdx : ℕ := 0
  threadInfos : ℕ → ThreadInfo := fun _ => {}
  dmtcpRestartSem : ℕ := 0
  /-- Who holds `template_thread_mut`. The numbers are those of the threads of the program. -/
  templateThreadMut : Option Gate.Owner := none
  template : TemplatePc := .sleeping

inductive ThreadAction
  | user (k : ℕ)
  /-- The thread calls `mc_pthread_create`. -/
  | create (k : ℕ) (t : Addr)
  /-- The thread records the state of an object. -/
  | object (k : ℕ) (location : Addr) (state : ObjectRecord)
  /-- `libpthread_cond_wait` returns for no reason. -/
  | wake (k : ℕ)
  | template
  deriving DecidableEq, Repr

/-! ### The records -/

/-- The descriptor of a thread which is recorded as alive. -/
def liveThread : RecordedObject → Option Addr
  | .thread r => if r.status = .alive then some r.pthreadDesc else none
  | _ => none

def liveThreads (recList : List RecordedObject) : List Addr := recList.filterMap liveThread

/-- `thread_count`. -/
def threadCount (recList : List RecordedObject) : ℕ :=
  recList.countP fun entry => (liveThread entry).isSome

def recordedThread : RecordedObject → Option Addr
  | .thread r => some r.pthreadDesc
  | _ => none

def recordedThreads (recList : List RecordedObject) : List Addr := recList.filterMap recordedThread

/-- Marks the record which `find_thread_record_mode` finds. -/
def markExited (t : Addr) : List RecordedObject → Option (List RecordedObject)
  | [] => none
  | .thread r :: recList =>
    if r.pthreadDesc = t then some (.thread { r with status := .exited } :: recList)
    else (markExited t recList).map (.thread r :: ·)
  | entry :: recList => (markExited t recList).map (entry :: ·)

/-- What a wrapper writes for an object goes into the entry which `find_object` finds, or into a new
one. The entries of threads have no location. -/
def recordObject (location : Addr) (state : ObjectRecord) :
    List RecordedObject → List RecordedObject
  | [] => [.object location state]
  | .object a state' :: recList =>
    if a = location then .object a state :: recList
    else .object a state' :: recordObject location state recList
  | entry :: recList => entry :: recordObject location state recList

/-! ### While the program is recorded, and until its threads find it restarted -/

namespace Recording

variable (r : Recording)

def goTo (k : ℕ) (u : User) (pc : UserPc) : Recording :=
  { r with users := r.users.set k { u with pc := pc } }

/-- `mc_register_this_thread`. -/
def register (k : ℕ) (u : User) : Recording :=
  { r.goTo k u (.registered r.tidNext) with tidNext := r.tidNext + 1 }

/-- A new thread records itself. -/
def record (k : ℕ) (u : User) (id : RunnerId) : Recording :=
  if u.pthreadDescriptor ∈ recordedThreads r.recList then r.goTo k u .assertionFailed
  else { r.goTo k u .outside with
    recList := r.recList ++ [.thread ⟨u.pthreadDescriptor, id, .alive⟩] }

/-- A thread which ends marks its record. -/
def markExited (k : ℕ) (u : User) : Recording :=
  match Restart.markExited u.pthreadDescriptor r.recList with
  | some recList => { r.goTo k u .ended with recList := recList }
  | none => r.goTo k u .assertionFailed

/-- A step of a thread which does not read the mode. -/
def stepUser (k : ℕ) (u : User) : Option Recording :=
  match u.pc with
  | .starting => some (r.register k u)
  | .recording id => some (r.record k u id)
  | .ending => some (r.markExited k u)
  | .leaving => some (r.goTo k u .left)
  | .creating child =>
    if (r.users[child]?).any (·.pc.isNew) then none else some (r.goTo k u .outside)
  | _ => none

/-- The thread calls `mc_pthread_create`. -/
def create (k : ℕ) (u : User) (t : Addr) : Recording :=
  { r with users := r.users.set k { u with pc := .creating r.users.length } ++ [⟨t, .starting⟩] }

/-- A wrapper records the state of an object. -/
def recordObject (location : Addr) (state : ObjectRecord) : Recording :=
  { r with recList := Restart.recordObject location state r.recList }

end Recording

/-! ### The threads of the restarted program -/

namespace Process

variable (p : Process)

def goTo (k : ℕ) (u : User) (pc : UserPc) : Process :=
  { p with toRecording := p.toRecording.goTo k u pc }

def setThreadInfo (i : ℕ) (info : ThreadInfo) : Process :=
  { p with threadInfos := Function.update p.threadInfos i info }

/-- `libpthread_mutex_lock` of `template_thread_mut`. -/
def lockAndTest (k : ℕ) (u : User) (l : Locals) : Option Process :=
  if p.templateThreadMut = none then
    some { p.goTo k u (.handling l .testing) with templateThreadMut := some (.passer k) }
  else none

/-- A step of `thread_handle_after_dmtcp_restart` after the allocation. -/
def stepHandling (k : ℕ) (u : User) (l : Locals) : Place → Option Process
  | .allocated =>
    if l.origThreadIdx < maxThreadInfos then
      some ((p.setThreadInfo l.origThreadIdx {}).goTo k u (.handling l .cleared))
    else some (p.goTo k u .overflowed)
  | .cleared =>
    some ((p.setThreadInfo l.origThreadIdx { p.threadInfos l.origThreadIdx with
      valid := true
      pthreadDescriptor := u.pthreadDescriptor }).goTo k u (.handling l .described))
  | .described =>
    some ((p.setThreadInfo l.origThreadIdx { p.threadInfos l.origThreadIdx with
      context := some l }).goTo k u (.handling l .saved))
  | .saved =>
    if p.pid = l.origPid then
      -- `notify_template_thread`
      some { p.goTo k u (.handling l .switching) with dmtcpRestartSem := p.dmtcpRestartSem + 1 }
    else some (p.goTo k u (.handling l .switching))
  | .switching =>
    match l.modeOnEntry with
    | .dmtcpRestartIntoTemplate => some (p.goTo k u (.handling l .locking))
    | .dmtcpRestartIntoBranch => some (p.goTo k u (.handling l .awaiting))
    | _ => some (p.goTo k u (.handling l .aborted))
  | .locking => p.lockAndTest k u l
  | .testing =>
    if p.mode = .targetBranchAfterRestart then some (p.goTo k u (.handling l .unlocking))
    else some { p.goTo k u (.handling l .waiting) with templateThreadMut := none }
  | .waiting => none
  | .reacquiring => p.lockAndTest k u l
  | .unlocking => some { p.goTo k u (.handling l .awaiting) with templateThreadMut := none }
  | .awaiting => none
  | .aborted => none

/-- A step of a thread of the program. -/
def stepUser (k : ℕ) (u : User) : Option Process :=
  match u.pc with
  | .starting | .recording _ | .ending | .leaving | .creating _ =>
    (p.toRecording.stepUser k u).map fun r => { p with toRecording := r }
  | .registered id =>
    some (p.goTo k u (if p.mode.isInRestartMode then .recording id else .elsewhere))
  | .outside => some (p.goTo k u (if p.mode.isInRestartMode then .entering else .elsewhere))
  | .entering => some (p.goTo k u (.entered p.mode))
  | .entered modeOnEntry =>
    some { p.goTo k u (.handling ⟨modeOnEntry, p.pid, p.threadIdx⟩ .allocated) with
      threadIdx := p.threadIdx + 1 }
  | .handling l place => p.stepHandling k u l place
  | .ended | .left | .elsewhere | .overflowed | .crashed | .assertionFailed => none

end Process

/-! ### The template thread -/

/-- The end of a wait on `template_thread_cond`. -/
def UserPc.woken : UserPc → UserPc
  | .handling l .waiting => .handling l .reacquiring
  | pc => pc

def User.woken (u : User) : User := { u with pc := u.pc.woken }

/-- A thread created by `restart_child_threads_fast`. -/
def ThreadInfo.recreate (info : ThreadInfo) : User where
  pthreadDescriptor := info.pthreadDescriptor
  pc :=
    match info.context with
    | some l => .handling l .saved
    | none => .crashed

/-- A step of `template_thread`, which does not fork. -/
def Process.stepTemplate (p : Process) : Option Process :=
  match p.template with
  | .sleeping => some { p with template := .barrier (threadCount p.recList) }
  | .barrier (left + 1) =>
    if 0 < p.dmtcpRestartSem then
      some { p with dmtcpRestartSem := p.dmtcpRestartSem - 1, template := .barrier left }
    else none
  | .barrier 0 =>
    if p.mode = .dmtcpRestartIntoBranch then
      some { p with mode := .targetBranchAfterRestart, template := .publishing }
    else some { p with template := .publishing }
  | .publishing =>
    if p.mode = .dmtcpRestartIntoTemplate then some { p with template := .waitingForRequest }
    else some { p with template := .finished }
  | .recreating i maxThreadIdx =>
    if i < maxThreadIdx then
      some { p with
        users := p.users ++ [(p.threadInfos i).recreate]
        template := .recreating (i + 1) maxThreadIdx }
    else some { p with template := .opening }
  | .opening => some { p with mode := .targetBranchAfterRestart, template := .locking }
  | .locking =>
    if p.templateThreadMut = none then
      some { p with templateThreadMut := some .opener, template := .broadcasting }
    else none
  | .broadcasting => some { p with users := p.users.map (·.woken), template := .unlocking }
  | .unlocking => some { p with templateThreadMut := none, template := .finished }
  | .waitingForRequest | .waitingForDeath | .finished => none

/-- A step of a thread of the process. -/
def Process.step (a : ThreadAction) (p : Process) : Option Process :=
  match a with
  | .user k => (p.users[k]?).bind fun u => p.stepUser k u
  | .create k t =>
    (p.users[k]?).bind fun u =>
      if u.pc = .outside then
        some (if p.mode.isInRestartMode then { p with toRecording := p.toRecording.create k u t }
          else p.goTo k u .elsewhere)
      else none
  | .object k location state =>
    (p.users[k]?).bind fun u =>
      if u.pc = .outside then
        some { p with toRecording := p.toRecording.recordObject location state }
      else none
  | .wake k =>
    (p.users[k]?).bind fun u =>
      match u.pc with
      | .handling l .waiting => some (p.goTo k u (.handling l .reacquiring))
      | _ => none
  | .template => p.stepTemplate

/-- The owner of a mutex, in a process in which only the template thread runs on. -/
def ownerAfterFork : Gate.Owner → Gate.Owner
  | .passer _ => .absent
  | owner => owner

/-- The new process after `_Fork`. -/
def Process.forked (pid : ℤ) (p : Process) : Process :=
  { p with
    pid := pid
    templateThreadMut := p.templateThreadMut.map ownerAfterFork
    users := []
    template := .recreating 0 p.threadIdx }

/-- `mc_pthread_is_recreated_thread`. -/
def Process.isRecreatedThread (t : Addr) (p : Process) : Bool :=
  (List.range p.threadIdx).any fun i =>
    (p.threadInfos i).valid && (p.threadInfos i).pthreadDescriptor = t

/-! ### The restarted process and its branches -/

structure State where
  restarted : Process
  /-- The oldest one is the first. -/
  branches : List Process := []

inductive Action
  | restarted (a : ThreadAction)
  | branch (i : ℕ) (a : ThreadAction)
  /-- `fast_multithreaded_fork`, on a request. -/
  | fork (pid : ℤ)
  | forkFailed
  /-- `sigchld_sem` is posted. -/
  | death
  deriving DecidableEq, Repr

/-- What a step leads to, if it can be taken. -/
def step : Action → State → Option State
  | .restarted a, s => (s.restarted.step a).map fun p => { s with restarted := p }
  | .branch i a, s =>
    (s.branches[i]?).bind fun b =>
      (b.step a).map fun b' => { s with branches := s.branches.set i b' }
  | .fork pid, s =>
    if s.restarted.template = .waitingForRequest ∧ pid ≠ s.restarted.pid then
      some {
        restarted := { s.restarted with template := .waitingForDeath }
        branches := s.branches ++ [s.restarted.forked pid] }
    else none
  | .forkFailed, s =>
    if s.restarted.template = .waitingForRequest then
      some { s with restarted := { s.restarted with template := .waitingForDeath } }
    else none
  | .death, s =>
    if s.restarted.template = .waitingForDeath then
      some { s with restarted := { s.restarted with template := .waitingForRequest } }
    else none

/-- The mode which the callback for `DMTCP_EVENT_RESTART` sets. -/
def restartMode (templateLoop : Bool) : Mode :=
  if templateLoop then .dmtcpRestartIntoTemplate else .dmtcpRestartIntoBranch

/-- A program which has been restarted, as it was when the checkpoint was taken. -/
def start (pid : ℤ) (templateLoop : Bool) (r : Recording) : State where
  restarted :=
    { toRecording := r
      pid := pid
      mode := restartMode templateLoop }

end Restart

end McMini
