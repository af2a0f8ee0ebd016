import McMini.Model.StateSequence

/-!
# Mutable states

The interface `model::mutable_state` lets a caller add objects and runners to a state and give
new states to those it has. `StateQueries` is what a `model::state` answers, and the
two representations which may be updated on their own are

* `DetachedState`, which owns all its objects;
* `MutableDiffState`, the source's `diff_state` with all its members: a base, which is only
  queried, the objects which are new or have new states, and the runners which are new.

Transitions are applied to difference states but add nothing to them. `DiffState` is what they
see (`MutableDiffState.Implements.addStateForObj`).

An update may throw. It returns the state it leaves behind together with its answer.
-/

namespace McMini

open Foundation

/-- The answers of a `model::state`. No object is `none`, which stands for `invalid_objid`, and
no runner is `none`, which stands for `invalid_rid`. The states of runners are those of their
objects: the cast to `runner_state` changes the type of the pointer only. -/
@[ext]
structure StateQueries where
  count : ℕ
  runnerCount : ℕ
  isRunner : ObjId → Bool
  containsObjectWithId : ObjId → Bool
  containsRunnerWithId : RunnerId → Bool
  getObjidForRunner : RunnerId → Option ObjId
  getRunnerIdForObj : ObjId → Option RunnerId
  getStateOfObject : ObjId → Except Failure VisibleObjectState
  getStateOfRunner : RunnerId → Except Failure VisibleObjectState

/-- The updates of a `mutable_state`, and the replacement of a difference state by a copy of
it. -/
inductive StateUpdate
  | addObject (initialState : VisibleObjectState)
  | addRunner (initialState : Thread)
  | addStateForObj (id : ObjId) (newState : VisibleObjectState)
  | addStateForRunner (id : RunnerId) (newState : Thread)
  | copy
  deriving DecidableEq

/-- What an update returns. -/
inductive StateUpdate.Answer
  | objid (id : ObjId)
  | runnerId (id : RunnerId)
  | done
  deriving DecidableEq, Repr

/-- The object or runner the update is for is contained in the state. -/
def StateUpdate.Contained (q : StateQueries) : StateUpdate → Prop
  | .addStateForObj id _ => q.containsObjectWithId id = true
  | .addStateForRunner id _ => q.containsRunnerWithId id = true
  | _ => True

/-- Performs the updates one after the other and collects the answers. -/
def performAll {σ : Type} (perform : σ → StateUpdate → σ × Except Failure StateUpdate.Answer) :
    σ → List StateUpdate → σ × List (Except Failure StateUpdate.Answer)
  | s, [] => (s, [])
  | s, u :: us =>
    let (s, answer) := perform s u
    let (s, answers) := performAll perform s us
    (s, answer :: answers)

/-! ### Detached states -/

namespace DetachedState

def getStateOfObject (d : DetachedState) (id : ObjId) : Except Failure VisibleObjectState :=
  match d.visibleObjects[id]? with
  | some o => .ok o
  | none => .error .outOfRange

/-- What the detached state answers. No object has the id `invalid_objid`. -/
def queries (d : DetachedState) : StateQueries where
  count := d.visibleObjects.length
  runnerCount := d.runnerToObjMap.size
  isRunner id := (d.runnerToObjMap.rangeLookup id).isSome
  containsObjectWithId id := decide (id < d.visibleObjects.length)
  containsRunnerWithId p := (d.runnerToObjMap.lookup p).isSome
  getObjidForRunner := d.runnerToObjMap.lookup
  getRunnerIdForObj := d.runnerToObjMap.rangeLookup
  getStateOfObject := d.getStateOfObject
  getStateOfRunner p :=
    match d.runnerToObjMap.lookup p with
    | some id => d.getStateOfObject id
    | none => .error .outOfRange

variable {d : DetachedState} {o : VisibleObjectState} {p : RunnerId} {i : ObjId}

theorem lookup_lt_concat (d : DetachedState) (o : VisibleObjectState) {p : RunnerId} {i : ObjId}
    (h : d.runnerToObjMap.lookup p = some i) : i < (d.visibleObjects ++ [o]).length := by
  rw [List.length_append]
  exact Nat.lt_add_right 1 (d.lookup_lt h)

theorem lookup_lt_set (d : DetachedState) (id : ObjId) (o : VisibleObjectState) {p : RunnerId}
    {i : ObjId} (h : d.runnerToObjMap.lookup p = some i) :
    i < (d.visibleObjects.set id o).length := by
  rw [List.length_set]
  exact d.lookup_lt h

/-- The object is put at the end. Its id is its position. -/
def addObject (d : DetachedState) (o : VisibleObjectState) : DetachedState × ObjId :=
  ({ d with visibleObjects := d.visibleObjects ++ [o], lookup_lt := d.lookup_lt_concat o },
    d.visibleObjects.length)

/-- The next number is free among the runners. -/
theorem lookup_size (d : DetachedState) :
    d.runnerToObjMap.lookup d.runnerToObjMap.size = none := by
  rw [InjectiveFunction.lookup, Finmap.lookup_eq_none, ← Finmap.mem_keys, d.keys_eq_range]
  exact Finset.notMem_range_self

variable {m : InjectiveFunction RunnerId ObjId}

theorem keys_of_insert (d : DetachedState)
    (h : d.runnerToObjMap.insert d.runnerToObjMap.size d.visibleObjects.length = some m) :
    m.forward.keys = Finset.range m.size := by
  rw [InjectiveFunction.size_of_insert d.lookup_size h,
    (InjectiveFunction.forward_of_insert d.lookup_size h).1, keys_insert, d.keys_eq_range,
    Finset.range_add_one]

theorem lookup_lt_of_insert (d : DetachedState) (o : VisibleObjectState)
    (h : d.runnerToObjMap.insert d.runnerToObjMap.size d.visibleObjects.length = some m)
    {p : RunnerId} {i : ObjId} (hi : m.lookup p = some i) :
    i < (d.visibleObjects ++ [o]).length := by
  rw [InjectiveFunction.lookup_of_insert d.lookup_size h] at hi
  split_ifs at hi
  · rw [← Option.some.inj hi, List.length_append]
    exact Nat.lt_succ_self _
  · exact d.lookup_lt_concat o hi

/-- A runner gets the next number. -/
def addRunner (d : DetachedState) (t : Thread) : DetachedState × Except Failure RunnerId :=
  match h : d.runnerToObjMap.insert d.runnerToObjMap.size d.visibleObjects.length with
  | none => ((d.addObject (.thread t)).1, .error (.runtimeError
      ("A value in the domain already maps to this value. " ++
        "This would break the one-to-one invariance of this mapping")))
  | some m =>
    ({ visibleObjects := d.visibleObjects ++ [.thread t]
       runnerToObjMap := m
       keys_eq_range := d.keys_of_insert h
       lookup_lt := d.lookup_lt_of_insert (.thread t) h }, .ok d.runnerToObjMap.size)

def addStateForObj (d : DetachedState) (id : ObjId) (o : VisibleObjectState) :
    DetachedState × Except Failure Unit :=
  if id = objidInvalid then
    (d, .error (.runtimeError "Attempted to insert a state for an invalid object id"))
  else if id < d.visibleObjects.length then
    ({ d with visibleObjects := d.visibleObjects.set id o, lookup_lt := d.lookup_lt_set id o },
      .ok ())
  else (d, .error .outOfRange)

def addStateForRunner (d : DetachedState) (p : RunnerId) (t : Thread) :
    DetachedState × Except Failure Unit :=
  d.addStateForObj ((d.queries.getObjidForRunner p).getD objidInvalid) (.thread t)

/-- Performs an update. A copy of a detached state is the same state. -/
def perform (d : DetachedState) : StateUpdate → DetachedState × Except Failure StateUpdate.Answer
  | .addObject o => let (d, id) := d.addObject o; (d, .ok (.objid id))
  | .addRunner t => let (d, p) := d.addRunner t; (d, p.map .runnerId)
  | .addStateForObj id o => let (d, r) := d.addStateForObj id o; (d, r.map fun _ => .done)
  | .addStateForRunner p t => let (d, r) := d.addStateForRunner p t; (d, r.map fun _ => .done)
  | .copy => (d, .ok .done)

/-- Giving a runner a state is giving its object the state. -/
theorem perform_addStateForRunner (d : DetachedState) (p : RunnerId) (t : Thread) :
    d.perform (.addStateForRunner p t) =
      d.perform (.addStateForObj ((d.queries.getObjidForRunner p).getD objidInvalid)
        (.thread t)) := rfl

/-- What adding a runner comes to. -/
theorem addRunner_eq (d : DetachedState) (t : Thread) :
    ∃ d', d.addRunner t = (d', .ok d.runnerToObjMap.size) ∧
      d'.visibleObjects = d.visibleObjects ++ [.thread t] ∧
      d.runnerToObjMap.insert d.runnerToObjMap.size d.visibleObjects.length =
        some d'.runnerToObjMap := by
  have hobj : ∀ p, d.runnerToObjMap.lookup p ≠ some d.visibleObjects.length :=
    fun p hp => lt_irrefl _ (d.lookup_lt hp)
  obtain ⟨m, hm, -⟩ := InjectiveFunction.exists_insert d.lookup_size hobj
  unfold addRunner
  split
  next h => rw [hm] at h; cases h
  next m' h => exact ⟨_, rfl, rfl, h⟩

end DetachedState

/-! ### Difference states -/

/-- A difference state (`diff_state`): the base, which is kept by reference and never changed,
the runners which are new, and the objects which are new or have new states. -/
structure MutableDiffState where
  baseState : StateQueries
  newRunners : InjectiveFunction RunnerId ObjId
  newObjectStates : Finmap fun _ : ObjId => VisibleObjectState

namespace MutableDiffState

/-- `diff_state(const state &s)`. -/
def ofState (base : StateQueries) : MutableDiffState := ⟨base, .empty, ∅⟩

/-- `diff_state(const diff_state &ds)`: it initialises the base and the objects. -/
def copy (d : MutableDiffState) : MutableDiffState := ⟨d.baseState, .empty, d.newObjectStates⟩

/-- Entries for objects of the base were counted twice. -/
def count (d : MutableDiffState) : ℕ :=
  d.newObjectStates.keys.card + d.baseState.count -
    (d.newObjectStates.keys.filter fun id => d.baseState.containsObjectWithId id).card

def runnerCount (d : MutableDiffState) : ℕ := d.baseState.runnerCount + d.newRunners.size

def getObjidForRunner (d : MutableDiffState) (p : RunnerId) : Option ObjId :=
  match d.newRunners.lookup p with
  | some id => some id
  | none => d.baseState.getObjidForRunner p

def getRunnerIdForObj (d : MutableDiffState) (id : ObjId) : Option RunnerId :=
  match d.newRunners.rangeLookup id with
  | some p => some p
  | none => d.baseState.getRunnerIdForObj id

def isRunner (d : MutableDiffState) (id : ObjId) : Bool :=
  (d.newRunners.rangeLookup id).isSome || d.baseState.isRunner id

def containsObjectWithId (d : MutableDiffState) (id : ObjId) : Bool :=
  (d.newObjectStates.lookup id).isSome || d.baseState.containsObjectWithId id

def containsRunnerWithId (d : MutableDiffState) (p : RunnerId) : Bool :=
  (d.newRunners.lookup p).isSome || d.baseState.containsRunnerWithId p

def getStateOfObject (d : MutableDiffState) (id : ObjId) : Except Failure VisibleObjectState :=
  match d.newObjectStates.lookup id with
  | some o => .ok o
  | none => d.baseState.getStateOfObject id

/-- Only a new runner is looked up in the difference. -/
def getStateOfRunner (d : MutableDiffState) (p : RunnerId) : Except Failure VisibleObjectState :=
  match d.newRunners.lookup p with
  | some id => d.getStateOfObject id
  | none => d.baseState.getStateOfRunner p

/-- What the difference state answers. -/
def queries (d : MutableDiffState) : StateQueries where
  count := d.count
  runnerCount := d.runnerCount
  isRunner := d.isRunner
  containsObjectWithId := d.containsObjectWithId
  containsRunnerWithId := d.containsRunnerWithId
  getObjidForRunner := d.getObjidForRunner
  getRunnerIdForObj := d.getRunnerIdForObj
  getStateOfObject := d.getStateOfObject
  getStateOfRunner := d.getStateOfRunner

/-- The next id is computed from the number of all entries, those for objects of the base
included. -/
def addObject (d : MutableDiffState) (o : VisibleObjectState) : MutableDiffState × ObjId :=
  let nextId := d.baseState.count + d.newObjectStates.keys.card
  ({ d with newObjectStates := d.newObjectStates.insert nextId o }, nextId)

def addRunner (d : MutableDiffState) (t : Thread) :
    MutableDiffState × Except Failure RunnerId :=
  let (d, objid) := d.addObject (.thread t)
  let nextRunnerId := d.runnerCount
  match d.newRunners.insert nextRunnerId objid with
  | none => (d, .error (.runtimeError ("A value in the domain already maps to this value. " ++
      "This would break the one-to-one invariance of this mapping")))
  | some newRunners => ({ d with newRunners }, .ok nextRunnerId)

/-- The new state is kept in the difference. Whether the object exists is not checked. -/
def addStateForObj (d : MutableDiffState) (id : ObjId) (o : VisibleObjectState) :
    MutableDiffState × Except Failure Unit :=
  if id = objidInvalid then
    (d, .error (.runtimeError "Attempted to insert a state for an invalid object id"))
  else ({ d with newObjectStates := d.newObjectStates.insert id o }, .ok ())

def addStateForRunner (d : MutableDiffState) (p : RunnerId) (t : Thread) :
    MutableDiffState × Except Failure Unit :=
  d.addStateForObj ((d.getObjidForRunner p).getD objidInvalid) (.thread t)

/-- Performs an update. -/
def perform (d : MutableDiffState) :
    StateUpdate → MutableDiffState × Except Failure StateUpdate.Answer
  | .addObject o => let (d, id) := d.addObject o; (d, .ok (.objid id))
  | .addRunner t => let (d, p) := d.addRunner t; (d, p.map .runnerId)
  | .addStateForObj id o => let (d, r) := d.addStateForObj id o; (d, r.map fun _ => .done)
  | .addStateForRunner p t => let (d, r) := d.addStateForRunner p t; (d, r.map fun _ => .done)
  | .copy => (d.copy, .ok .done)

/-- Giving a runner a state is giving its object the state. -/
theorem perform_addStateForRunner (d : MutableDiffState) (p : RunnerId) (t : Thread) :
    d.perform (.addStateForRunner p t) =
      d.perform (.addStateForObj ((d.getObjidForRunner p).getD objidInvalid) (.thread t)) := rfl

/-! #### The difference states of transitions -/

/-- The difference state is the one which the transitions see: it has no runners of its own,
and its base answers as the base of the other. -/
structure Implements (d : MutableDiffState) (s : DiffState) : Prop where
  newRunners : d.newRunners = .empty
  newObjectStates : ∀ i, d.newObjectStates.lookup i = s.newObjectStates.lookup i
  getStateOfObject_base : ∀ i o,
    d.baseState.getStateOfObject i = .ok o ↔ s.baseState.objectState i = some o
  getObjidForRunner_base : ∀ p, d.baseState.getObjidForRunner p = s.baseState.objidForRunner p

namespace Implements

variable {d : MutableDiffState} {s s' : DiffState} {i : ObjId} {o : VisibleObjectState}
  {p : RunnerId}

theorem getStateOfObject (h : d.Implements s) :
    d.getStateOfObject i = .ok o ↔ s.toState.objectState i = some o := by
  rw [MutableDiffState.getStateOfObject, h.newObjectStates]
  show _ ↔ (s.newObjectStates.lookup i).or (s.baseState.objectState i) = some o
  cases s.newObjectStates.lookup i with
  | none => exact h.getStateOfObject_base i o
  | some o' => simp

theorem getObjidForRunner (h : d.Implements s) :
    d.getObjidForRunner p = s.toState.objidForRunner p := by
  rw [MutableDiffState.getObjidForRunner, h.newRunners, InjectiveFunction.lookup_empty]
  exact h.getObjidForRunner_base p

/-- Giving an object a state which succeeds for the one is the same update of the other. -/
theorem addStateForObj (h : d.Implements s) (hs : s.addStateForObj i o = .ok s') :
    (d.addStateForObj i o).2 = .ok () ∧ (d.addStateForObj i o).1.Implements s' := by
  obtain ⟨hi, rfl⟩ := DiffState.addStateForObj_eq_ok.mp hs
  rw [MutableDiffState.addStateForObj, if_neg hi]
  refine ⟨rfl, h.newRunners, fun j => ?_, h.getStateOfObject_base, h.getObjidForRunner_base⟩
  show (d.newObjectStates.insert i o).lookup j = (s.newObjectStates.insert i o).lookup j
  rw [lookup_insert]
  by_cases hj : i = j
  · subst hj
    rw [if_pos rfl, AList.lookup_insert]
  · rw [if_neg hj, AList.lookup_insert_ne (Ne.symm hj), h.newObjectStates]

/-- Nothing is lost when it is copied. -/
theorem copy (h : d.Implements s) : d.copy = d := by
  rw [MutableDiffState.copy, ← h.newRunners]

end Implements

end MutableDiffState

end McMini
