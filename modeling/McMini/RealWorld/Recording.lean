import McMini.RealWorld.Restart

/-!
# While the program is recorded

The main thread is recorded when DMTCP creates the checkpoint thread, and from then on the library
records what the threads of the program do. A thread which is created draws its id, records itself
and runs. In the wrappers it calls, the states of the objects are recorded. When its routine has
returned, it marks its record. `pthread_exit` does not: in this mode the call goes to `libpthread`
at once.

A checkpoint can be taken at any time.
-/

namespace McMini.Restart

open Transfer

inductive RecordAction
  /-- The thread goes on with what it does in the library. -/
  | user (k : ℕ)
  /-- The thread calls `mc_pthread_create`. -/
  | create (k : ℕ) (t : Addr)
  /-- The thread records the state of an object. -/
  | object (k : ℕ) (location : Addr) (state : ObjectRecord)
  /-- The routine of the thread returns. -/
  | finish (k : ℕ)
  /-- The thread calls `mc_pthread_exit`. -/
  | exit (k : ℕ)
  deriving DecidableEq, Repr

/-- What the thread does, if it runs. -/
def Recording.whenOutside (r : Recording) (k : ℕ) (f : User → Recording) : Option Recording :=
  (r.users[k]?).bind fun u => if u.pc = .outside then some (f u) else none

/-- A step of a thread of the program, in the mode `RECORD`. -/
def Recording.step (a : RecordAction) (r : Recording) : Option Recording :=
  match a with
  | .user k =>
    (r.users[k]?).bind fun u =>
      match u.pc with
      | .registered id => some (r.goTo k u (.recording id))
      | _ => r.stepUser k u
  | .create k t => r.whenOutside k fun u => r.create k u t
  | .object k location state => r.whenOutside k fun _ => r.recordObject location state
  -- the process exits when `main` returns
  | .finish k => if k = 0 then none else r.whenOutside k fun u => r.goTo k u .ending
  | .exit k => r.whenOutside k fun u => r.goTo k u .leaving

/-- `record_main_thread`, after which the main thread runs. -/
def recordMainThread (t : Addr) : Recording where
  recList := [.thread ⟨t, 0, .alive⟩]
  tidNext := 1
  users := [⟨t, .outside⟩]

end McMini.Restart
