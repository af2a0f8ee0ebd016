import McMini.Model.Footprint
import McMini.Properties.Exploration
import McMini.RealWorld.TargetThread

/-!
# Addresses which are used again

The objects of the target live at addresses: from the call of an `init` function, or from when
their memory is initialized statically, until they are destroyed or their memory is used
otherwise. Another object may live at the same address then, of the same class or another one.

McMini maps each address to one object of the model and never takes an address out of the map.
A class of transitions reads the state of its object without a look at the type, and records a new
state without one. The executions of `McMini/Model/Transition.lean` fail where the two types differ.
Here a state is recorded whatever the type of the old one is (`overwrites`), in the transitions
which do not read it first. Reading an object at a wrong type is still a failure. On objects which
the model has, this is what `Unchecked.follow` does (`follow_eq_exists_iff_unchecked`).

A run is one of a target which uses its objects while they live. Beside the coordinator it has what
lives at the addresses, and for which of these lives the model has set up its object.
-/

namespace McMini

/-! ### The model, without a look at the types -/

namespace Operation

/-- The objects which `modify` reads, and the classes it takes them for. -/
def reads : Operation → List (ObjId × ObjectType)
  | .conditionVariableInit _ | .semInit _ _ => []
  | op => op.operands

end Operation

namespace MailboxContents

/-- The objects of the target which the operation is called with. -/
def operands : MailboxContents → List (Addr × ObjectType)
  | .mutexInit a | .mutexLock a _ | .mutexUnlock a => [(a, .mutex)]
  | .condInit a | .condSignal a _ | .condBroadcast a _ | .condDestroy a =>
    [(a, .conditionVariable)]
  | .condEnqueue a m _ | .condWait a m => [(a, .conditionVariable), (m, .mutex)]
  | .semInit a _ | .semPost a | .semWait a | .semDestroy a => [(a, .semaphore)]
  | .threadCreate _ | .threadExit | .threadJoin _ | .processExit _ | .processAbort
  | .unregistered _ => []

/-- The object which the operation initializes. -/
def initializes : MailboxContents → Option (Addr × ObjectType)
  | .mutexInit a => some (a, .mutex)
  | .condInit a => some (a, .conditionVariable)
  | .semInit a _ => some (a, .semaphore)
  | _ => none

/-- The object whose state the operation sets up, without regard to the old one. -/
def setsUp : MailboxContents → Option (Addr × ObjectType)
  | .threadCreate a => some (a, .thread)
  | contents => contents.initializes

/-- The address which the callback adds when the model does not know it, and the class of the
object which it adds. -/
def adds : MailboxContents → Option (Addr × ObjectType)
  | .mutexInit a | .mutexLock a _ => some (a, .mutex)
  | .condInit a | .condEnqueue a _ _ | .condSignal a _ | .condBroadcast a _ =>
    some (a, .conditionVariable)
  | .semInit a _ => some (a, .semaphore)
  | .threadCreate a => some (a, .thread)
  | _ => none

/-- The operation has to do with the memory at the address. -/
def concerns (contents : MailboxContents) (a : Addr) : Bool :=
  contents.operands.any (fun x => x.1 = a) || decide (contents = .threadCreate a)

end MailboxContents

namespace ReusedAddresses

/-- The state which the operation gives to an object without reading the old one. -/
def overwrites (s : McMini.State) : Operation → Option (ObjId × VisibleObjectState)
  | .conditionVariableInit c => some (c, .conditionVariable { currentState := .initialized })
  | .semInit i n => some (i, .semaphore (.ofCount n))
  | .threadCreate target => (s.objidForRunner target).map fun i => (i, .thread ⟨.running⟩)
  | _ => none

/-- `state_sequence::follow`. The other transitions read the objects whose states they replace. -/
def follow (s : StateSequence) (t : Transition) : StateSequence × Except Failure Status :=
  match overwrites s.toState t.op with
  | none => s.follow t
  | some (i, o) =>
    match s.toState.getStateOfRunner t.executor with
    | .error e => (s, .error e)
    | .ok executorState =>
      if executorState.isActive then
        (StateSequence.pushStateSnapshot
          { s with visibleObjects := StateSequence.pushNewStates s.visibleObjects [⟨i, o⟩] },
          .ok .exists')
      else (s, .ok .disabled)

/-- `execute_runner`, where the runner reports the contents. -/
def executeRunner (p : RunnerId) (contents : MailboxContents) (c : Coordinator) :
    Option Coordinator :=
  match (callback p contents).run (c.afterProcess p) with
  | (.error _, _) => none
  | (.ok t, c) =>
    match c.currentProgramModel.nextSteps.lookup p with
    | none => none
    | some next =>
      match follow c.getStateSequence next with
      | (stateSeq, .ok .exists') => some { c with
          currentProgramModel := ⟨stateSeq, c.currentProgramModel.trace ++ [next],
            c.currentProgramModel.nextSteps.insert p t⟩ }
      | _ => none

/-! ### The target -/

/-- How an object comes to live. -/
inductive Origin
  /-- The runner has called the `init` function, which has not run yet. -/
  | initializing (p : RunnerId)
  | initialized
  /-- The memory has been initialized statically, and the model knew the address before. -/
  | static (reused : Bool)
  deriving DecidableEq, Repr

/-- The object may be used. -/
def Origin.isComplete : Origin → Bool
  | .initializing _ => false
  | .initialized | .static _ => true

/-- An object of the target. -/
structure Life where
  objectType : ObjectType
  origin : Origin
  deriving DecidableEq, Repr

/-- The memory of the target, and what the model has been told of it. -/
structure World where
  living : Addr → Option Life
  /-- How many objects have lived at the address. -/
  lives : Addr → ℕ
  /-- The object for which the model has set up the one it has for the address, counted among those
  which have lived there, and the class it has set it up with. -/
  shown : Addr → Option (ℕ × ObjectType)
  /-- The operation which the runner executes next. -/
  reported : RunnerId → Option MailboxContents

namespace World

variable (runners : List RunnerId) (p : RunnerId) (w : World)

/-- No runner is about to execute an operation which has to do with the memory at the address. -/
def free (a : Addr) : Bool :=
  runners.all fun q => !(w.reported q).any (·.concerns a)

/-- What lives when the operation has been executed. -/
def livingAfter (contents : MailboxContents) : Addr → Option Life :=
  match contents with
  | .condDestroy a => Function.update w.living a none
  | contents =>
    match contents.initializes with
    | some (a, objectType) => Function.update w.living a (some ⟨objectType, .initialized⟩)
    | none => w.living

/-- What the model has been told when it has executed the operation. -/
def shownAfter (contents : MailboxContents) : Addr → Option (ℕ × ObjectType) :=
  match contents.setsUp with
  | some (a, objectType) => Function.update w.shown a (some (w.lives a, objectType))
  | none => w.shown

/-- No other runner is about to use what the operation destroys. -/
def mayPerform (contents : MailboxContents) : Bool :=
  match contents with
  | .condDestroy a => w.free runners a
  | _ => true

/-- The process executes the operation which the runner has reported. -/
def perform : Option World :=
  match w.reported p with
  | none => some w
  | some contents =>
    let w := { w with reported := Function.update w.reported p none }
    if w.mayPerform runners contents then
      some { w with living := w.livingAfter contents, shown := w.shownAfter contents }
    else none

/-- What the runner does before its next operation. -/
inductive Event
  /-- The object at the address is destroyed, or its memory is given up. -/
  | ends (a : Addr)
  /-- An object is initialized statically. -/
  | begins (a : Addr) (objectType : ObjectType)
  deriving DecidableEq, Repr

def live : Event → Option World
  | .ends a =>
    if (w.living a).isSome ∧ w.free runners a then
      some { w with living := Function.update w.living a none }
    else none
  | .begins a objectType =>
    if w.living a = none ∧ w.free runners a ∧
        (objectType = .mutex ∨ objectType = .conditionVariable) then
      some { w with
        living := Function.update w.living a (some ⟨objectType, .static (w.shown a).isSome⟩)
        lives := Function.update w.lives a (w.lives a + 1) }
    else none

/-- The process executes what the runner has reported, and the runner goes on. -/
def goOn (events : List Event) : Option World :=
  (w.perform runners p).bind fun w => events.foldlM (fun w event => w.live runners event) w

/-- The callback adds an address which the model does not know. -/
def see (contents : MailboxContents) : World :=
  match contents.adds with
  | some (a, objectType) =>
    if w.shown a = none then
      { w with shown := Function.update w.shown a (some (w.lives a, objectType)) }
    else w
  | none => w

/-- The objects which the operation uses live. -/
def uses (contents : MailboxContents) : Bool :=
  (contents.operands.all fun x =>
    (w.living x.1).any fun life => life.objectType = x.2 && life.origin.isComplete) &&
  match contents with
  | .threadCreate a => (w.living a).isNone
  | _ => true

/-- The runner reports its next operation. -/
def report (contents : MailboxContents) : Option World :=
  match contents.initializes with
  | some (a, objectType) =>
    if w.living a = none ∧ w.free runners a then
      let w := { w with
        living := Function.update w.living a (some ⟨objectType, .initializing p⟩)
        lives := Function.update w.lives a (w.lives a + 1) }
      some { w.see contents with reported := Function.update w.reported p (some contents) }
    else none
  | none =>
    if w.uses contents then
      some { w.see contents with reported := Function.update w.reported p (some contents) }
    else none

end World

/-! ### Runs -/

structure State where
  coordinator : Coordinator
  world : World

/-- McMini executes the runner, which reports the contents. -/
structure Action where
  runner : RunnerId
  events : List World.Event := []
  contents : MailboxContents
  deriving DecidableEq, Repr

/-- The runners whose next operations are known. -/
def State.runners (s : State) : List RunnerId := s.coordinator.currentProgramModel.runners

/-- The target when the runner is about to report. -/
def State.goOn (s : State) (a : Action) : Option World :=
  s.world.goOn s.runners a.runner a.events

/-- What an action leads to, if it can be taken. -/
def step (a : Action) (s : State) : Option State := do
  let w ← s.goOn a
  let w ← w.report s.runners a.runner a.contents
  let c ← executeRunner a.runner a.contents s.coordinator
  return ⟨c, w⟩

/-- The target is at `main`. -/
def start : State where
  coordinator := .atMain
  world := ⟨fun _ => none, fun _ => 0, fun _ => none, fun _ => none⟩

end ReusedAddresses

end McMini
