import McMini.Model.Coordinator

/-!
# The items of the search stack

For each state of the current trace the search keeps an item: the clock vector of the
transition which led to the state, the clock vectors of the transitions the runners executed
last, the transition it took from there, and the sets of runners which tell what is left to
explore.
-/

namespace McMini

/-- `MAX_TOTAL_THREADS_IN_PROGRAM`. -/
def maxTotalThreadsInProgram : ℕ := 20

/-- `RUNNER_ID_MAX`. -/
def runnerIdMax : RunnerId := 65535

/-! ### Clock vectors -/

/-- A clock vector: a map from runners to positions in the trace. -/
structure ClockVector where
  contents : AList fun _ : RunnerId => ℕ

namespace ClockVector

/-- The clock vector without explicit mappings. -/
def empty : ClockVector := ⟨∅⟩

/-- Runners without an explicit mapping are mapped to `0`. -/
def valueFor (cv : ClockVector) (tid : RunnerId) : ℕ := (cv.contents.lookup tid).getD 0

/-- `cv[tid] = i`. -/
def set (cv : ClockVector) (tid : RunnerId) (i : ℕ) : ClockVector := ⟨cv.contents.insert tid i⟩

/-- Maps the runners of `cv₁` to the larger of their two values, in addition to what the
result maps already. -/
def maxInto (result : AList fun _ : RunnerId => ℕ) (cv₁ cv₂ : ClockVector) :
    AList fun _ : RunnerId => ℕ :=
  cv₁.contents.entries.foldl
    (fun result e => result.insert e.1 (Nat.max (cv₂.valueFor e.1) e.2)) result

/-- The componentwise maximum. -/
def max (cv₁ cv₂ : ClockVector) : ClockVector := ⟨maxInto (maxInto ∅ cv₂ cv₁) cv₁ cv₂⟩

variable {cv cv₁ cv₂ : ClockVector} {p q : RunnerId} {i : ℕ}

@[simp]
theorem valueFor_empty : empty.valueFor p = 0 := rfl

theorem valueFor_set : (cv.set p i).valueFor q = if q = p then i else cv.valueFor q := by
  unfold valueFor set
  by_cases h : q = p
  · subst h
    simp
  · simp [h, AList.lookup_insert_ne h]

private theorem lookup_foldl_insert {l : List (Sigma fun _ : RunnerId => ℕ)} (hl : l.NodupKeys)
    (f : RunnerId → ℕ → ℕ) (result : AList fun _ : RunnerId => ℕ) :
    (l.foldl (fun result e => result.insert e.1 (f e.1 e.2)) result).lookup q =
      ((l.dlookup q).map (f q)).or (result.lookup q) := by
  induction l generalizing result with
  | nil => simp
  | cons e l ih =>
    obtain ⟨r, n⟩ := e
    obtain ⟨hr, hl⟩ := List.nodupKeys_cons.mp hl
    rw [List.foldl_cons, ih hl]
    by_cases hq : q = r
    · subst hq
      have hnone : l.dlookup q = none := List.dlookup_eq_none.mpr hr
      simp [hnone, List.dlookup_cons_eq]
    · rw [List.dlookup_cons_ne _ _ hq, AList.lookup_insert_ne hq]

private theorem lookup_maxInto (result : AList fun _ : RunnerId => ℕ) :
    (maxInto result cv₁ cv₂).lookup q =
      ((cv₁.contents.lookup q).map (Nat.max (cv₂.valueFor q))).or (result.lookup q) :=
  lookup_foldl_insert cv₁.contents.nodupKeys (fun r n => Nat.max (cv₂.valueFor r) n) result

@[simp]
theorem valueFor_max :
    (max cv₁ cv₂).valueFor q = Nat.max (cv₁.valueFor q) (cv₂.valueFor q) := by
  unfold max valueFor
  rw [lookup_maxInto, lookup_maxInto]
  cases h₁ : cv₁.contents.lookup q with
  | some n => simp [valueFor, Nat.max_comm]
  | none =>
    cases h₂ : cv₂.contents.lookup q with
    | some n => simp [valueFor, h₁]
    | none => simp

end ClockVector

/-! ### Stack items -/

/-- What the search knows about a runner. -/
structure RunnerItem where
  cv : ClockVector := .empty

/-- A pointer to a transition, which the model owns. -/
inductive TransitionPointer
  | nullptr
  | valid (t : Transition)
  /-- The model has destroyed the transition. -/
  | dangling

/-- The transition behind a pointer. -/
def TransitionPointer.deref : TransitionPointer → Except Failure Transition
  | .nullptr => .error (.undefinedBehavior "a null pointer is dereferenced")
  | .valid t => .ok t
  | .dangling => .error (.undefinedBehavior "a destroyed transition is used")

/-- What the search knows about a state it has reached. -/
structure StackItem where
  cv : ClockVector
  perRunnerClocks : Vector RunnerItem maxTotalThreadsInProgram := Vector.replicate _ {}
  outTransition : TransitionPointer := .nullptr
  backtrackSet : Finset RunnerId := ∅
  doneSet : Finset RunnerId := ∅
  sleepSet : Finset RunnerId := ∅
  enabledRunners : Finset RunnerId

namespace StackItem

def backtrackSetEmpty (item : StackItem) : Bool := item.backtrackSet = ∅

def backtrackSetContains (item : StackItem) (rid : RunnerId) : Bool := rid ∈ item.backtrackSet

def sleepSetContains (item : StackItem) (rid : RunnerId) : Bool := rid ∈ item.sleepSet

def doneSetContains (item : StackItem) (rid : RunnerId) : Bool := rid ∈ item.doneSet

def hasEnabledRunners (item : StackItem) : Bool := item.enabledRunners ≠ ∅

def insertIntoBacktrackSetUnlessCompleted (item : StackItem) (rid : RunnerId) : StackItem :=
  if item.doneSetContains rid then item
  else { item with backtrackSet := insert rid item.backtrackSet }

def insertIntoSleepSet (item : StackItem) (rid : RunnerId) : StackItem :=
  { item with sleepSet := insert rid item.sleepSet }

def markSearched (item : StackItem) (rid : RunnerId) : StackItem :=
  { item with doneSet := insert rid item.doneSet, backtrackSet := item.backtrackSet.erase rid }

/-- The smallest runner of the backtrack set moves to the done set. -/
def backtrackSetPopFirst (item : StackItem) : Except Failure (RunnerId × StackItem) :=
  match item.backtrackSet.min with
  | ⊤ => .error (.runtimeError "There are no more threads to backtrack on")
  | some rid => .ok (rid, item.markSearched rid)

def getFirstEnabledRunner (item : StackItem) : RunnerId :=
  item.enabledRunners.fold min runnerIdMax id

def setOutTransition (item : StackItem) (out : TransitionPointer) : StackItem :=
  { item with outTransition := out }

/-- `get_per_runner_clocks()[p].get_clock_vector()`. The access is not checked. -/
def clockVectorOf (item : StackItem) (p : RunnerId) : Except Failure ClockVector :=
  match item.perRunnerClocks[p]? with
  | some runner => .ok runner.cv
  | none => .error (.undefinedBehavior "per_runner_clocks[p] is out of bounds")

/-- The clocks of the runners once the runner's clock vector is `cv`. The access is not
checked. -/
def withClockVector (item : StackItem) (p : RunnerId) (cv : ClockVector) :
    Except Failure (Vector RunnerItem maxTotalThreadsInProgram) :=
  if h : p < maxTotalThreadsInProgram then .ok (item.perRunnerClocks.set p ⟨cv⟩ h)
  else .error (.undefinedBehavior "per_runner_clocks[p] is out of bounds")

end StackItem

end McMini
