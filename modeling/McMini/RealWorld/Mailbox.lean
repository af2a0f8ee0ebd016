import McMini.Foundation.Bytes
import McMini.Model.Coordinator

/-!
# The contents of a mailbox

A wrapper reports its operation by storing a type in the mailbox of its runner and copying the
operands into its 64 bytes, which still hold what the runner has reported before. The callback
which is registered for the type copies them out again. Writer and reader know the offsets and the
widths each on its own.

`callback` of the coordinator takes the operands as they are. Here the callbacks read them from
the bytes, and hand them to the callback of the coordinator.
-/

namespace McMini

namespace Mailbox

open Foundation

/-- `transition_type`. -/
inductive TransitionType
  | invisibleOperationType
  | mutexInitType | mutexLockType | mutexUnlockType
  | threadCreateType | threadJoinType | threadExitType
  | processExitType | processAbortType
  | condEnqueueType | condInitType | condWaitType | condSignalType | condBroadcastType
  | condDestroyType
  | semInitType | semWaitType | semPostType | semDestroyType
  deriving DecidableEq, Repr

/-- The value of the enumerator. -/
def TransitionType.value : TransitionType → BitVec 32
  | .invisibleOperationType => 0
  | .mutexInitType => 1
  | .mutexLockType => 2
  | .mutexUnlockType => 3
  | .threadCreateType => 4
  | .threadJoinType => 5
  | .threadExitType => 6
  | .processExitType => 7
  | .processAbortType => 8
  | .condEnqueueType => 9
  | .condInitType => 10
  | .condWaitType => 11
  | .condSignalType => 12
  | .condBroadcastType => 13
  | .condDestroyType => 14
  | .semInitType => 15
  | .semWaitType => 16
  | .semPostType => 17
  | .semDestroyType => 18

/-- `sizeof` of a pointer, of `pthread_t`, of `runner_id_t` and of `int` and `unsigned`. -/
def sizeofPointer : ℕ := 8
def sizeofPthread : ℕ := 8
def sizeofRunnerId : ℕ := 2
def sizeofInt : ℕ := 4

/-- What of `runner_mailbox` the reports concern. -/
structure RunnerMailbox where
  type : BitVec 32
  cnts : Vector (BitVec 8) 64

namespace RunnerMailbox

variable (mb : RunnerMailbox)

def setType (type : TransitionType) : RunnerMailbox := { mb with type := type.value }

/-- `memcpy_v` of a variable of `n` bytes into the mailbox. -/
def store (offset n value : ℕ) : Option RunnerMailbox :=
  (memcpyV n mb.cnts offset (toBytes n value) 0).map fun cnts => { mb with cnts }

/-- `memcpy_v` from the mailbox into a variable of `n` bytes. -/
def load (offset n : ℕ) : Option ℕ :=
  (memcpyV n (Vector.replicate n 0) 0 mb.cnts offset).map ofBytes

end RunnerMailbox

/-! ### The wrappers -/

section Wrappers

variable (mb : RunnerMailbox)

/-- The wrappers which report the address of one object. -/
def reportObject (type : TransitionType) (object : BitVec 64) : Option RunnerMailbox :=
  (mb.setType type).store 0 sizeofPointer object.toNat

def mcPthreadMutexInit (mutex : BitVec 64) : Option RunnerMailbox :=
  reportObject mb .mutexInitType mutex

def mcPthreadMutexLock (mutex : BitVec 64) : Option RunnerMailbox :=
  reportObject mb .mutexLockType mutex

def mcPthreadMutexUnlock (mutex : BitVec 64) : Option RunnerMailbox :=
  reportObject mb .mutexUnlockType mutex

def mcPthreadCondInit (cond : BitVec 64) : Option RunnerMailbox :=
  reportObject mb .condInitType cond

def mcPthreadCondSignal (cond : BitVec 64) : Option RunnerMailbox :=
  reportObject mb .condSignalType cond

def mcPthreadCondBroadcast (cond : BitVec 64) : Option RunnerMailbox :=
  reportObject mb .condBroadcastType cond

def mcPthreadCondDestroy (cond : BitVec 64) : Option RunnerMailbox :=
  reportObject mb .condDestroyType cond

def mcSemPost (sem : BitVec 64) : Option RunnerMailbox := reportObject mb .semPostType sem

def mcSemWait (sem : BitVec 64) : Option RunnerMailbox := reportObject mb .semWaitType sem

/-- The two reports of `mc_pthread_cond_wait`. -/
def mcPthreadCondWait (type : TransitionType) (cond mutex : BitVec 64) : Option RunnerMailbox := do
  let mb ← (mb.setType type).store 0 sizeofPointer cond.toNat
  mb.store sizeofPointer sizeofPointer mutex.toNat

def mcSemInit (sem : BitVec 64) (count : BitVec 32) : Option RunnerMailbox := do
  let mb ← (mb.setType .semInitType).store 0 sizeofPointer sem.toNat
  mb.store sizeofPointer sizeofInt count.toNat

def mcPthreadCreate (thread : BitVec 64) : Option RunnerMailbox := do
  let mb ← mb.store 0 sizeofPthread thread.toNat
  some (mb.setType .threadCreateType)

/-- `mc_pthread_join`, with the number which `search_pthread_map` has found. -/
def mcPthreadJoin (rid : BitVec 16) : Option RunnerMailbox := do
  let mb ← mb.store 0 sizeofRunnerId rid.toNat
  some (mb.setType .threadJoinType)

/-- The reports of a thread which ends. -/
def mcExitThread : Option RunnerMailbox := some (mb.setType .threadExitType)

def mcTransparentExit (status : BitVec 32) : Option RunnerMailbox :=
  (mb.setType .processExitType).store 0 sizeofInt status.toNat

def mcTransparentAbort : Option RunnerMailbox := some (mb.setType .processAbortType)

end Wrappers

/-! ### The callbacks -/

/-- Whether there is a statically initialized object at an address of the target. -/
structure TargetMemory where
  mutexIsStaticInitializer : Addr → Bool
  condIsStaticInitializer : Addr → Bool

/-- A variable which a callback fills from the mailbox. -/
def fetch (rmb : RunnerMailbox) (offset n : ℕ) : CoordinatorM ℕ :=
  match rmb.load offset n with
  | some value => return value
  | none => throw (.undefinedBehavior "memcpy_v reads beyond the mailbox")

abbrev TransitionDiscoveryCallback :=
  RunnerId → RunnerMailbox → TargetMemory → CoordinatorM Transition

/-- The callbacks which read the address of one object. -/
def ofObject (f : RunnerId → TargetMemory → Addr → CoordinatorM Transition) :
    TransitionDiscoveryCallback := fun p rmb memory => do
  let remote ← fetch rmb 0 sizeofPointer
  f p memory remote

def mutexInit : TransitionDiscoveryCallback := ofObject fun p _ remoteMut =>
  mutexInitCallback p remoteMut

def mutexLock : TransitionDiscoveryCallback := ofObject fun p memory remoteMut =>
  mutexLockCallback p remoteMut (memory.mutexIsStaticInitializer remoteMut)

def mutexUnlock : TransitionDiscoveryCallback := ofObject fun p _ remoteMut =>
  mutexUnlockCallback p remoteMut

def condInit : TransitionDiscoveryCallback := ofObject fun p _ remoteCond =>
  condInitCallback p remoteCond

def condSignal : TransitionDiscoveryCallback := ofObject fun p memory remoteCond =>
  condSignalCallback p remoteCond (memory.condIsStaticInitializer remoteCond)

def condBroadcast : TransitionDiscoveryCallback := ofObject fun p memory remoteCond =>
  condBroadcastCallback p remoteCond (memory.condIsStaticInitializer remoteCond)

def condDestroy : TransitionDiscoveryCallback := ofObject fun p _ remoteCond =>
  condDestroyCallback p remoteCond

def semPost : TransitionDiscoveryCallback := ofObject fun p _ remoteSem =>
  semPostCallback p remoteSem

def semWait : TransitionDiscoveryCallback := ofObject fun p _ remoteSem =>
  semWaitCallback p remoteSem

def semDestroy : TransitionDiscoveryCallback := ofObject fun p _ remoteSem =>
  semDestroyCallback p remoteSem

def condEnqueue : TransitionDiscoveryCallback := fun p rmb memory => do
  let remoteCond ← fetch rmb 0 sizeofPointer
  let remoteMut ← fetch rmb sizeofPointer sizeofPointer
  condWaitingThreadEnqueueCallback p remoteCond remoteMut
    (memory.condIsStaticInitializer remoteCond)

def condWait : TransitionDiscoveryCallback := fun p rmb _ => do
  let remoteCond ← fetch rmb 0 sizeofPointer
  let remoteMut ← fetch rmb sizeofPointer sizeofPointer
  condWaitCallback p remoteCond remoteMut

/-- The count is read as an `int` and passed on as an `unsigned`. -/
def semInit : TransitionDiscoveryCallback := fun p rmb _ => do
  let remoteSem ← fetch rmb 0 sizeofPointer
  let count ← fetch rmb sizeofPointer sizeofInt
  semInitCallback p remoteSem (BitVec.ofInt 32 (BitVec.ofNat 32 count).toInt)

def threadCreate : TransitionDiscoveryCallback := fun p rmb _ => do
  let newThread ← fetch rmb 0 sizeofPthread
  threadCreateCallback p newThread

def threadExit : TransitionDiscoveryCallback := fun p _ _ => return ⟨p, .threadExit⟩

def threadJoin : TransitionDiscoveryCallback := fun p rmb _ => do
  let targetId ← fetch rmb 0 sizeofRunnerId
  threadJoinCallback p targetId

def processExit : TransitionDiscoveryCallback := fun p rmb _ => do
  let exitCode ← fetch rmb 0 sizeofInt
  return ⟨p, .processExit (BitVec.ofNat 32 exitCode).toInt⟩

def processAbort : TransitionDiscoveryCallback := fun p _ _ => return ⟨p, .processAbort⟩

def defaultRegistry : List (TransitionType × TransitionDiscoveryCallback) :=
  [(.mutexInitType, mutexInit), (.mutexLockType, mutexLock), (.mutexUnlockType, mutexUnlock),
    (.threadCreateType, threadCreate), (.threadExitType, threadExit),
    (.threadJoinType, threadJoin), (.processExitType, processExit),
    (.processAbortType, processAbort), (.condInitType, condInit),
    (.condEnqueueType, condEnqueue), (.condWaitType, condWait), (.condSignalType, condSignal),
    (.condBroadcastType, condBroadcast), (.condDestroyType, condDestroy),
    (.semInitType, semInit), (.semDestroyType, semDestroy), (.semPostType, semPost),
    (.semWaitType, semWait)]

def getCallbackFor (rttid : BitVec 32) : Option TransitionDiscoveryCallback :=
  (defaultRegistry.find? fun entry => entry.1.value = rttid).map Prod.snd

/-- What the coordinator makes of a mailbox. -/
def translate (p : RunnerId) (rmb : RunnerMailbox) (memory : TargetMemory) :
    CoordinatorM Transition :=
  match getCallbackFor rmb.type with
  | some discover => discover p rmb memory
  | none => callback p (.unregistered rmb.type.toNat)

end Mailbox

end McMini
