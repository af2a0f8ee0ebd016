import Mathlib.Data.Finset.Card
import McMini.Foundation.Runs

/-!
# The futex word of a mailbox

`child_side_sem` is a 32-bit word which threads wait on with `mc_raw_sem_wait` (through
`mc_wait_for_scheduler`) and add to with `mc_raw_sem_post` (through `mc_wake_thread`). Each of
the two is a few atomic steps, and every thread may be at any of them: `Pc` is where a thread
is, and an `Action` is one step of one thread, of the kernel, or of `mc_runner_mailbox_init`.

**The kernel.** `FUTEX_WAIT` puts the thread to sleep if the word is 0 in that moment. A sleeper
returns when `FUTEX_WAKE` picks it, when a signal interrupts it, or for no reason. `FUTEX_WAKE`
wakes one sleeper, whichever it likes, if there is one.

**Initialisations.** The word may be set to 0 at every moment, whatever the threads are at.
-/

namespace McMini.FutexWord

variable {ι : Type*} [DecidableEq ι]

/-- `errno` after a call of `futex`. -/
inductive Errno
  | zero | eagain | eintr
  /-- One of the others. -/
  | other
  deriving DecidableEq, Repr

/-- Where a thread is in the two functions. -/
inductive Pc
  /-- Outside of both, with the result of its last call. -/
  | returned (rc : ℤ)
  /-- In the loop of `mc_raw_sem_wait`: before the load, before the exchange of the loaded value,
  and before or in the call of `FUTEX_WAIT`. -/
  | loading
  | exchanging (cur : BitVec 32)
  | futexWait
  /-- In `mc_raw_sem_post`: before the addition, and before the call of `FUTEX_WAKE`. -/
  | adding
  | waking
  deriving DecidableEq, Repr

/-- `posts` and `waits` are the additions to the word and the successful exchanges since it was
last initialised; the code does not keep them. -/
structure State (ι : Type*) where
  word : BitVec 32 := 0
  pc : ι → Pc := fun _ => .returned 0
  /-- The threads which the kernel keeps asleep on the word. -/
  sleepers : Finset ι := ∅
  posts : ℕ := 0
  waits : ℕ := 0

inductive Action (ι : Type*)
  /-- The calls of `mc_raw_sem_wait` and `mc_raw_sem_post`. -/
  | callWait (i : ι)
  | callPost (i : ι)
  /-- The steps of `mc_raw_sem_wait`. -/
  | load (i : ι)
  | compareExchange (i : ι)
  | futexWait (i : ι)
  /-- `FUTEX_WAIT` returns with `EINTR`, or without reason. -/
  | interrupt (i : ι)
  | wakeSpuriously (i : ι)
  /-- The steps of `mc_raw_sem_post`. -/
  | fetchAdd (i : ι)
  | futexWake (i : ι) (sleeper : Option ι)
  /-- The store of `mc_runner_mailbox_init`. -/
  | init
  deriving DecidableEq, Repr

/-- `mc_raw_sem_wait` after its load. -/
def afterLoad (cur : BitVec 32) : Pc := if 0 < cur then .exchanging cur else .futexWait

/-- `mc_raw_sem_wait` after its call of `FUTEX_WAIT`. -/
def afterFutexWait (rc : ℤ) (errno : Errno) : Pc :=
  if rc = -1 ∧ errno ≠ .eagain ∧ errno ≠ .eintr then .returned (-1) else .loading

/-- Where the thread is, if it is not asleep. -/
def State.awakePc (s : State ι) (i : ι) : Option Pc := if i ∈ s.sleepers then none else some (s.pc i)

def State.goTo (s : State ι) (i : ι) (p : Pc) : State ι := { s with pc := Function.update s.pc i p }

/-- `FUTEX_WAIT` returns. -/
def State.awaken (s : State ι) (i : ι) (rc : ℤ) (errno : Errno) : State ι :=
  { s.goTo i (afterFutexWait rc errno) with sleepers := s.sleepers.erase i }

/-- What a step leads to, if it can be taken. -/
def step : Action ι → State ι → Option (State ι)
  | .callWait i, s =>
    match s.awakePc i with
    | some (.returned _) => some (s.goTo i .loading)
    | _ => none
  | .callPost i, s =>
    match s.awakePc i with
    | some (.returned _) => some (s.goTo i .adding)
    | _ => none
  | .load i, s =>
    match s.awakePc i with
    | some .loading => some (s.goTo i (afterLoad s.word))
    | _ => none
  | .compareExchange i, s =>
    match s.awakePc i with
    | some (.exchanging cur) =>
      if s.word = cur then
        some { s.goTo i (.returned 0) with word := cur - 1, waits := s.waits + 1 }
      else some (s.goTo i .loading)
    | _ => none
  | .futexWait i, s =>
    match s.awakePc i with
    | some .futexWait =>
      if s.word = 0 then some { s with sleepers := insert i s.sleepers }
      else some (s.goTo i (afterFutexWait (-1) .eagain))
    | _ => none
  | .interrupt i, s => if s.pc i = .futexWait then some (s.awaken i (-1) .eintr) else none
  | .wakeSpuriously i, s => if i ∈ s.sleepers then some (s.awaken i 0 .zero) else none
  | .fetchAdd i, s =>
    match s.awakePc i with
    | some .adding => some { s.goTo i .waking with word := s.word + 1, posts := s.posts + 1 }
    | _ => none
  | .futexWake i none, s =>
    match s.awakePc i with
    | some .waking => if s.sleepers = ∅ then some (s.goTo i (.returned 0)) else none
    | _ => none
  | .futexWake i (some j), s =>
    match s.awakePc i with
    | some .waking =>
      if j ∈ s.sleepers then some ((s.awaken j 0 .zero).goTo i (.returned 0)) else none
    | _ => none
  | .init, s => some { s with word := 0, posts := 0, waits := 0 }

/-- The mailbox after its first initialisation. -/
def start : State ι := {}

end McMini.FutexWord
