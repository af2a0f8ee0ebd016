import Mathlib.Data.Finmap
import Mathlib.Data.Finset.Max

/-!
# Visible objects: mutexes, semaphores and threads

The states of the objects through which the threads of the target communicate, as the
model keeps them. Each class of the source is a structure with the fields the class
declares, each enumeration an inductive type with the enumerators in their declared
order, and each observer a Boolean function under the source's name. Addresses of the
target process and identifiers of objects and runners are natural numbers; the
sentinels `invalid_objid` and `invalid_rid` of the lookups are `none`, and the runner
sentinel stored in objects is `ridInvalid`.

The condition variable, whose state carries a wake-up policy, is in
`McMini/Objects/ConditionVariable.lean`.
-/

namespace McMini

/-- Identifier of a visible object in the model (`state::objid_t`). -/
abbrev ObjId := ℕ

/-- Identifier of a runner in the model (`runner_id_t`). -/
abbrev RunnerId := ℕ

/-- An address in the target process; `0` is the null pointer. -/
abbrev Addr := ℕ

/-- `RID_MAIN_THREAD`: the runner of the target's main thread. -/
def ridMainThread : RunnerId := 0

/-- `RID_INVALID`, the largest 16-bit value: no runner. -/
def ridInvalid : RunnerId := 65535

/-! ### Mutexes -/

/-- The four possible states of a mutex (`mutex::state`). -/
inductive MutexState
  | uninitialized | unlocked | locked | destroyed
  deriving DecidableEq, Repr

/-- A mutex: its state, its address in the target and the runner recorded as holding it. -/
structure Mutex where
  currentState : MutexState := .uninitialized
  location : Addr
  owner : RunnerId := ridInvalid
  deriving DecidableEq, Repr

namespace Mutex

def isLocked (m : Mutex) : Bool := m.currentState == .locked

def isUnlocked (m : Mutex) : Bool := m.currentState == .unlocked

def isLockedBy (m : Mutex) (tid : RunnerId) : Bool :=
  m.currentState == .locked && m.owner == tid

theorem isLockedBy_iff {m : Mutex} {tid : RunnerId} :
    m.isLockedBy tid = true ↔ m.currentState = .locked ∧ m.owner = tid := by
  simp [isLockedBy]

/-- A locked mutex is not unlocked. -/
theorem isUnlocked_eq_false_of_isLockedBy {m : Mutex} {tid : RunnerId}
    (h : m.isLockedBy tid = true) : m.isUnlocked = false := by
  simp [isUnlocked, (isLockedBy_iff.mp h).1]

/-- Two runners recorded as holding one mutex are the same runner. -/
theorem isLockedBy_unique {m : Mutex} {p q : RunnerId} (hp : m.isLockedBy p = true)
    (hq : m.isLockedBy q = true) : p = q :=
  (isLockedBy_iff.mp hp).2.symm.trans (isLockedBy_iff.mp hq).2

end Mutex

/-! ### Semaphores -/

/-- The possible states of a semaphore (`semaphore::state`). -/
inductive SemaphoreState
  | uninitialized | initialized | destroyed
  deriving DecidableEq, Repr

/-- A semaphore. Its count is an `int`, read back through `unsigned`: thirty-two bits
under either reading. -/
structure Semaphore where
  count : BitVec 32 := 0
  currentState : SemaphoreState := .uninitialized
  deriving DecidableEq, Repr

namespace Semaphore

/-- `explicit semaphore(unsigned count)`. -/
def ofCount (count : BitVec 32) : Semaphore := ⟨count, .initialized⟩

/-- A wait blocks when the signed count is not positive. -/
def willBlock (s : Semaphore) : Bool := decide (s.count.toInt ≤ 0)

end Semaphore

/-! ### Threads -/

/-- The states of a thread (`thread::state`). -/
inductive ThreadState
  | running | exited | killed | embryo
  deriving DecidableEq, Repr

/-- A thread, which is the state of a runner. -/
structure Thread where
  currentState : ThreadState := .embryo
  deriving DecidableEq, Repr

namespace Thread

def isEmbryo (t : Thread) : Bool := t.currentState == .embryo

def isRunning (t : Thread) : Bool := t.currentState == .running

def hasExited (t : Thread) : Bool := t.currentState == .exited

/-- A runner is active when its thread is running. -/
def isActive (t : Thread) : Bool := t.isRunning

theorem isActive_iff {t : Thread} : t.isActive = true ↔ t.currentState = .running := by
  simp [isActive, isRunning]

end Thread

end McMini
