import Mathlib.Data.List.DropRight
import McMini.Model.Relations
import McMini.Dpor.StackItem

/-!
# The search

`classic_dpor::verify_using` explores the schedules of a program depth first, with dynamic
partial order reduction. It expands the trace with the first enabled runner until no runner
is enabled, and then goes back to the last state from which another runner is to be
explored. After each transition it records

* the clock vector of the transition (`growStackAfterRunning`), and
* the runners to be explored from earlier states, where a pending transition could have been
  executed instead of one of the trace (`dynamicallyUpdateBacktrackSets`).

The loops are the transitions of a machine, `Search.step`. A step which expands the trace
is one call of `continueDporByExpandingTraceWith`.
-/

namespace McMini

/-- `classic_dpor::configuration`. -/
structure Configuration where
  dependencyRelation : DispatchTable := defaultDependencies
  coenabledRelation : DispatchTable := defaultCoenabledness
  maximumTotalExecutionDepth : ℕ := 1500

namespace Coordinator

def getTrace (c : Coordinator) : List Transition := c.currentProgramModel.trace

def getDepthIntoProgram (c : Coordinator) : ℕ := c.getTrace.length

/-- The transition executed last. -/
def lastTransition (c : Coordinator) : Except Failure Transition :=
  match c.getTrace.getLast? with
  | some t => .ok t
  | none => .error (.undefinedBehavior "get_trace().back()")

/-- `*get_pending_transition_for(rid)`. -/
def pendingTransitionFor (c : Coordinator) (rid : RunnerId) : Except Failure Transition :=
  match c.currentProgramModel.nextSteps.lookup rid with
  | some t => .ok t
  | none => .error (.undefinedBehavior "a null pointer is dereferenced")

end Coordinator

section Stack

variable (config : Configuration)

/-! ### Clocks -/

/-- Joins the clock vector of an item whose out transition `t` depends on. -/
def joinClockVector (t : Transition) (result : ClockVector) (s_i : StackItem) :
    Except Failure ClockVector :=
  match s_i.outTransition with
  | .nullptr => return result
  | out => do
    if areDependent config.dependencyRelation (← out.deref) t then
      return ClockVector.max result s_i.cv
    else return result

def accumulateMaxClockVectorAgainst (t : Transition) (stack : List StackItem) :
    Except Failure ClockVector :=
  stack.foldlM (joinClockVector config t) .empty

/-- `context.stack.back()`. -/
def stackBack (stack : List StackItem) : Except Failure StackItem :=
  match stack.getLast? with
  | some item => .ok item
  | none => .error (.undefinedBehavior "stack.back()")

/-- `context.stack.at(i)`. -/
def stackAt (stack : List StackItem) (i : ℕ) : Except Failure StackItem :=
  match stack[i]? with
  | some item => .ok item
  | none => .error .outOfRange

/-- `*context.get_transition(i)`. -/
def getTransition (stack : List StackItem) (i : ℕ) : Except Failure Transition := do
  (← stackAt stack i).outTransition.deref

/-- The index `i` counts from `0`, the entries of clock vectors count from `1`. -/
def happensBeforeThread (stack : List StackItem) (i : ℕ) (p : RunnerId) :
    Except Failure Bool := do
  let rid := (← getTransition stack i).executor
  let cv ← (← stackBack stack).clockVectorOf p
  return i ≤ cv.valueFor rid

def threadsRaceAfter (stack : List StackItem) (i : ℕ) (q p : RunnerId) : Except Failure Bool :=
  (List.range' (i + 1) (stack.length - 1 - (i + 1))).anyM fun j => do
    if q == (← getTransition stack j).executor then happensBeforeThread stack j p
    else return false

/-- Adds the item of the state which the transition executed last has led to. -/
def growStackAfterRunning (c : Coordinator) (stack : List StackItem) :
    Except Failure (List StackItem) := do
  if c.getDepthIntoProgram ≠ stack.length then
    throw (.undefinedBehavior "assert(coordinator.get_depth_into_program() == stack.size())")
  let t_n ← c.lastTransition
  let cv := (← accumulateMaxClockVectorAgainst config t_n stack).set t_n.executor
    c.getDepthIntoProgram
  let s_n ← stackBack stack
  let perRunnerClocks ← s_n.withClockVector t_n.executor cv
  let enabled ← c.currentProgramModel.getEnabledRunners
  let asleep ← (inOrder s_n.sleepSet).filterM fun rid => do
    return !areDependent config.dependencyRelation (← c.pendingTransitionFor rid) t_n
  let s_n' := ((s_n.setOutTransition (.valid t_n)).insertIntoSleepSet t_n.executor).markSearched
    t_n.executor
  return stack.dropLast ++ [s_n', {
    cv := cv
    perRunnerClocks := perRunnerClocks
    outTransition := .valid t_n
    sleepSet := asleep.toFinset
    enabledRunners := enabled.toFinset }]

/-! ### Backtrack sets -/

/-- The pending transition `next_sp` of `p` could have been executed instead of `S_i`. -/
def hasReversibleRace (stack : List StackItem) (S_i next_sp : Transition) (i : ℕ)
    (p : RunnerId) : Except Failure Bool := do
  if areDependent config.dependencyRelation next_sp S_i &&
      areCoenabled config.coenabledRelation next_sp S_i then
    return !(← happensBeforeThread stack i p)
  else return false

/-- The runners by which `p` gets ahead of the transition at `i`, without the sleeping ones. -/
def runnersAhead (stack : List StackItem) (pre_si : StackItem) (i : ℕ) (p : RunnerId) :
    Except Failure (List RunnerId) := do
  let e ← (inOrder pre_si.enabledRunners).filterM fun q =>
    if q == p then return true else threadsRaceAfter stack i q p
  return e.filter fun q => !pre_si.sleepSetContains q

/-- Without such a runner all of them are to be explored. Otherwise one is, unless one is
already. -/
def StackItem.insertBacktrackPoints (pre_si : StackItem) : List RunnerId → StackItem
  | [] => ((inOrder pre_si.enabledRunners).filter fun q => !pre_si.sleepSetContains q).foldl
      insertIntoBacktrackSetUnlessCompleted pre_si
  | q :: e =>
    if (q :: e).any pre_si.backtrackSetContains then pre_si
    else pre_si.insertIntoBacktrackSetUnlessCompleted q

/-- Says whether there is a race. -/
def dynamicallyUpdateBacktrackSetsAtIndex (stack : List StackItem) (S_i next_sp : Transition)
    (i : ℕ) (p : RunnerId) : Except Failure (Bool × List StackItem) := do
  let pre_si ← stackAt stack i
  if ← hasReversibleRace config stack S_i next_sp i p then
    let e ← runnersAhead stack pre_si i p
    return (true, stack.set i (pre_si.insertBacktrackPoints e))
  else return (false, stack)

/-- The pending transitions of the other runners against the transition executed last. -/
def updateForOthers (c : Coordinator) (S_n : Transition) (t_stack_top : ℕ) :
    List RunnerId → List StackItem → Except Failure (List StackItem)
  | [], stack => .ok stack
  | rid :: thread_ids, stack => do
    let next_sp ← c.pendingTransitionFor rid
    let (_, stack) ← dynamicallyUpdateBacktrackSetsAtIndex config stack S_n next_sp t_stack_top rid
    updateForOthers c S_n t_stack_top thread_ids stack

/-- The pending transition of the runner which moved against the transitions below the top,
up to the first race. -/
def updateForLatest (c : Coordinator) (next_sp : Transition) (p : RunnerId) :
    ℕ → List StackItem → Except Failure (List StackItem)
  | 0, stack => .ok stack
  | i + 1, stack =>
    match c.getTrace[i]? with
    | none => .error .outOfRange
    | some S_i => do
      let (shouldStop, stack) ← dynamicallyUpdateBacktrackSetsAtIndex config stack S_i next_sp i p
      if shouldStop then return stack else updateForLatest c next_sp p i stack

def dynamicallyUpdateBacktrackSets (c : Coordinator) (stack : List StackItem) :
    Except Failure (List StackItem) := do
  let numThreads := c.currentProgramModel.nextSteps.keys.card
  let t_stack_top := stack.length - 2
  let S_n ← c.lastTransition
  let thread_ids := (List.range numThreads).filter (· ≠ S_n.executor)
  let stack ← updateForOthers config c S_n t_stack_top thread_ids stack
  let next_sp ← c.pendingTransitionFor S_n.executor
  updateForLatest config c next_sp S_n.executor t_stack_top stack

end Stack

/-! ### The loops -/

/-- `model_checking::stats`. -/
structure Stats where
  traceId : ℕ := 1
  totalTransitions : ℕ := 0

/-- The callbacks of an algorithm which the search may invoke. -/
inductive Callback
  | deadlock | traceCompleted | abnormalTermination | nonzeroExitCode | undefinedBehavior
  deriving DecidableEq, Repr

/-- A call of a callback with the arguments it gets. -/
structure Invocation where
  callback : Callback
  coordinator : Coordinator
  stats : Stats
  exception : Option Failure := none

/-- Where the search is: in front of the exploration loop, or about to follow the first
runner to backtrack on. -/
inductive Phase
  | exploration | backtrack
  deriving DecidableEq, Repr

/-- The state of `verify_using` between two steps. -/
structure Search where
  phase : Phase := .exploration
  coordinator : Coordinator
  stack : List StackItem
  stats : Stats := {}
  invocations : List Invocation := []

/-- What a step leads to. -/
inductive Progress
  | continues (s : Search)
  | returns (s : Search)
  | throws (e : Failure) (s : Search)

/-- The callback for an exception. -/
def callbackFor : Failure → Option Callback
  | .undefinedBehaviorException _ => some .undefinedBehavior
  | .terminationError _ _ _ => some .abnormalTermination
  | .nonzeroExitCodeError _ _ _ => some .nonzeroExitCode
  | _ => none

namespace Search

variable (source : ProcessSource) (config : Configuration) (callbacks : Finset Callback)

/-- Invokes the callback if it is set. -/
def invoke (s : Search) (callback : Callback) (exception : Option Failure) : Search :=
  if callback ∈ callbacks then
    { s with invocations := s.invocations ++ [⟨callback, s.coordinator, s.stats, exception⟩] }
  else s

/-- An exception, where there are `catch` clauses for the given callbacks. -/
def catching (s : Search) (clauses : List Callback) (e : Failure) : Progress :=
  match callbackFor e with
  | some callback =>
    if callback ∈ clauses then .returns (s.invoke callbacks callback (some e)) else .throws e s
  | none => .throws e s

/-- Executes the runner and updates the stack. -/
def continueDporByExpandingTraceWith (p : RunnerId) (stack : List StackItem) :
    CoordinatorM (List StackItem) := do
  executeRunner source p
  let c ← get
  let stack ← liftM (growStackAfterRunning config c stack)
  liftM (dynamicallyUpdateBacktrackSets config c stack)

def executionLimitMessage (size limit : ℕ) : String :=
  "*** Execution Limit Reached! ***\n\nMcMini ran a trace with" ++ toString size ++
    " transitions which is\nthe more than McMini was configured to handle in any one trace (" ++
    toString limit ++ "). Try running mcmini with the \"--max-depth-per-thread\" flag\n" ++
    "to limit how far into a trace McMini can go\n"

/-- The signal of an abort. -/
def sigabrt : ℤ := 6

/-- The next operation of the runner just executed must not end the program abnormally. -/
def checkNextOperation (rid : RunnerId) (c : Coordinator) : Except Failure Unit := do
  let rtransition ← c.pendingTransitionFor rid
  if rtransition.abortsProgramExecution then
    throw (.terminationError sigabrt rid "The program aborted")
  else if rtransition.programExitCode > 0 then
    throw (.nonzeroExitCodeError rtransition.programExitCode rid "The program exited abnormally")

/-- One round of the exploration loop. -/
def explore (s : Search) (back : StackItem) : Progress :=
  if config.maximumTotalExecutionDepth ≤ s.stack.length then
    .throws (.runtimeError (executionLimitMessage s.stack.length
      config.maximumTotalExecutionDepth)) s
  else
    let rid := back.getFirstEnabledRunner
    let clauses := [.undefinedBehavior, .abnormalTermination, .nonzeroExitCode]
    match (continueDporByExpandingTraceWith source config rid s.stack).run s.coordinator with
    | (.error e, c) => catching callbacks { s with coordinator := c } clauses e
    | (.ok stack, c) =>
      let s := { s with
        coordinator := c
        stack := stack
        stats := { s.stats with totalTransitions := s.stats.totalTransitions + 1 } }
      match checkNextOperation rid c with
      | .error e => catching callbacks s clauses e
      | .ok () => .continues s

/-- Invokes the callbacks for a completed trace. -/
def completeTrace (s : Search) : Except Failure Search := do
  let s := s.invoke callbacks .traceCompleted none
  if .deadlock ∈ callbacks then
    if ← s.coordinator.currentProgramModel.isInDeadlock then
      return s.invoke callbacks .deadlock none
  return s

/-- Removes the items from the top whose backtrack sets are empty. -/
def popExplored (stack : List StackItem) : List StackItem :=
  stack.rdropWhile (·.backtrackSetEmpty)

/-- What the coordinator's return to the depth does to the pointer of the item there. The
transition it points to is pending again, but at depth `0` it has been destroyed. -/
def afterReturn (depth : ℕ) (item : StackItem) : StackItem :=
  if depth = 0 then item.setOutTransition .dangling else item

/-- Completes a trace and returns to the last state from which a runner is left to be
explored. -/
def returnToBacktrackPoint (s : Search) : Progress :=
  match completeTrace callbacks s with
  | .error e => .throws e s
  | .ok s =>
    let stack := popExplored s.stack
    match stack.getLast? with
    | none => .continues { s with stack := stack }
    | some back =>
      let depth := stack.length - 1
      match (returnToDepth source depth).run s.coordinator with
      | (.error e, c) =>
        catching callbacks { s with coordinator := c, stack := stack }
          [.abnormalTermination, .nonzeroExitCode] e
      | (.ok (), c) => .continues { s with
          phase := .backtrack
          coordinator := c
          stack := stack.dropLast ++ [afterReturn depth back]
          stats := { s.stats with traceId := s.stats.traceId + 1 } }

/-- Follows the first runner to backtrack on. -/
def followBacktrack (s : Search) (back : StackItem) : Progress :=
  match back.backtrackSetPopFirst with
  | .error e => .throws e s
  | .ok (rid, back) =>
    let stack := s.stack.dropLast ++ [back]
    match (continueDporByExpandingTraceWith source config rid stack).run s.coordinator with
    | (.error e, c) =>
      catching callbacks { s with coordinator := c, stack := stack } [.undefinedBehavior] e
    | (.ok stack, c) =>
      .continues { s with phase := .exploration, coordinator := c, stack := stack }

/-- One step of `verify_using`. It returns when the stack is empty. -/
def step (s : Search) : Progress :=
  match s.stack.getLast? with
  | none => .returns s
  | some back =>
    match s.phase with
    | .exploration =>
      if back.hasEnabledRunners then explore source config callbacks s back
      else returnToBacktrackPoint source callbacks s
    | .backtrack => followBacktrack source config callbacks s back

/-- The search at its start: one item, for the initial state. -/
def start (c : Coordinator) : Except Failure Search := do
  let enabled ← c.currentProgramModel.getEnabledRunners
  return { coordinator := c, stack := [{ cv := .empty, enabledRunners := enabled.toFinset }] }

/-- The search gets from one state to another in one step. -/
def Steps (s s' : Search) : Prop := step source config callbacks s = .continues s'

/-- The states which the search goes through when it starts with the coordinator. -/
def Reachable (c : Coordinator) (s : Search) : Prop :=
  ∃ s₀, start c = .ok s₀ ∧ Relation.ReflTransGen (Steps source config callbacks) s₀ s

end Search

end McMini
