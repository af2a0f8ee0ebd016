import McMini.Foundation.InjectiveFunction
import McMini.Model.Transition

/-!
# State sequences

The model keeps the whole path from the initial state to the current one. A *state
sequence* owns, for each object ever seen, the history of its states, and its elements are
views: an element maps the ids of the objects it contains to positions in these histories,
and counts the runners it can see. The last element represents the sequence.

The ids of objects and runners are positions in the owner's lists, which never shrink,
while `consumeIntoSubsequence` drops elements and cuts histories; what an element contains
is decided by comparing an id with the number of entries of the element. Keeping the two in
step is the representation invariant (`McMini/Properties/RepresentationInvariant.lean`).

Functions which may throw return the sequence they leave behind together with the outcome,
so that a caller which catches the exception can go on.
-/

namespace McMini

open Foundation

/-! ### Objects with their histories -/

/-- An object with all its states, oldest first. There is always at least one. -/
structure VisibleObject where
  history : List VisibleObjectState
  history_ne_nil : history ≠ []

namespace VisibleObject

/-- An object in its initial state. -/
def ofState (o : VisibleObjectState) : VisibleObject := ⟨[o], List.cons_ne_nil _ _⟩

def getLastStateIndex (v : VisibleObject) : ℕ := v.history.length - 1

def pushState (v : VisibleObject) (o : VisibleObjectState) : VisibleObject :=
  ⟨v.history ++ [o], by simp⟩

/-- Leaves the states up to the given position. -/
def slice (v : VisibleObject) (index : ℕ) : VisibleObject :=
  ⟨v.history.take (index + 1), by simp [v.history_ne_nil]⟩

variable {v w : VisibleObject} {o : VisibleObjectState} {index : ℕ}

@[ext]
theorem ext (h : v.history = w.history) : v = w := by
  cases v
  cases w
  subst h
  rfl

theorem length_pos : 0 < v.history.length := List.length_pos_iff.mpr v.history_ne_nil

@[simp]
theorem pushState_history : (v.pushState o).history = v.history ++ [o] := rfl

@[simp]
theorem slice_history : (v.slice index).history = v.history.take (index + 1) := rfl

@[simp]
theorem ofState_history : (ofState o).history = [o] := rfl

theorem getLastStateIndex_lt : v.getLastStateIndex < v.history.length :=
  Nat.sub_lt v.length_pos Nat.one_pos

theorem history_getLastStateIndex :
    v.history[v.getLastStateIndex]? = some (v.history.getLast v.history_ne_nil) := by
  rw [getLastStateIndex, ← List.getLast?_eq_getElem?, List.getLast?_eq_getLast_of_ne_nil]

end VisibleObject

/-! ### Elements -/

/-- A view of the sequence which owns it: for each object it contains the position of its
state in the object's history, and the number of runners it can see. -/
structure Element where
  visibleObjectIndices : Finmap fun _ : ObjId => ℕ
  maxVisibleRunnerId : RunnerId

namespace Element

/-- `visible_object_indices.size()`. -/
def count (e : Element) : ℕ := e.visibleObjectIndices.keys.card

/-- Whether the element contains the object is decided by the number of its entries. -/
def containsObjectWithId (e : Element) (id : ObjId) : Bool := decide (id < e.count)

def recordNewRunner (e : Element) : Element :=
  { e with maxVisibleRunnerId := e.maxVisibleRunnerId + 1 }

def pointToNextStateFor (e : Element) (id : ObjId) : Element :=
  match e.visibleObjectIndices.lookup id with
  | some n => { e with visibleObjectIndices := e.visibleObjectIndices.insert id (n + 1) }
  | none => { e with visibleObjectIndices := e.visibleObjectIndices.insert id 0 }

/-- The positions of the last states of the objects. -/
def lastIndices (objects : List VisibleObject) : Finmap fun _ : ObjId => ℕ :=
  objects.zipIdx.foldl (fun indices v => indices.insert v.2 v.1.getLastStateIndex) ∅

variable {e : Element} {id j : ObjId} {n : ℕ}

theorem pointToNextStateFor_keys :
    (e.pointToNextStateFor id).visibleObjectIndices.keys =
      insert id e.visibleObjectIndices.keys := by
  unfold pointToNextStateFor
  split <;> exact keys_insert ..

@[simp]
theorem pointToNextStateFor_maxVisibleRunnerId :
    (e.pointToNextStateFor id).maxVisibleRunnerId = e.maxVisibleRunnerId := by
  unfold pointToNextStateFor
  split <;> rfl

/-- The entry of the object itself moves to the next position, or starts at the first. -/
theorem pointToNextStateFor_lookup_self :
    (e.pointToNextStateFor id).visibleObjectIndices.lookup id =
      some ((e.visibleObjectIndices.lookup id).elim 0 (· + 1)) := by
  unfold pointToNextStateFor
  split
  next n h => simp [h]
  next h => simp [h]

theorem pointToNextStateFor_lookup_of_ne (h : j ≠ id) :
    (e.pointToNextStateFor id).visibleObjectIndices.lookup j =
      e.visibleObjectIndices.lookup j := by
  unfold pointToNextStateFor
  split <;> exact Finmap.lookup_insert_of_ne _ h

theorem lastIndices_lookup {objects : List VisibleObject} :
    (lastIndices objects).lookup id = (objects[id]?).map VisibleObject.getLastStateIndex := by
  induction objects using List.reverseRecOn with
  | nil => simp [lastIndices]
  | append_singleton objects v ih =>
    have hconcat : lastIndices (objects ++ [v]) =
        (lastIndices objects).insert objects.length v.getLastStateIndex := by
      simp [lastIndices, List.zipIdx_append]
    rw [hconcat, lookup_insert, ih]
    rcases lt_trichotomy id objects.length with h | rfl | h
    · rw [if_neg h.ne', List.getElem?_append_left h]
    · simp
    · rw [if_neg h.ne, List.getElem?_eq_none h.le, List.getElem?_eq_none (by simpa using Nat.succ_le_of_lt h)]

end Element

/-! ### Sequences -/

/-- A sequence of states. Its last element, the representative, always exists. -/
structure StateSequence where
  runnerToObjMap : InjectiveFunction RunnerId ObjId
  visibleObjects : List VisibleObject
  earlier : List Element
  representative : Element

namespace StateSequence

/-- `states_in_sequence`. -/
def statesInSequence (s : StateSequence) : List Element := s.earlier ++ [s.representative]

/-- `element(const state_sequence *owner)`: a view of the last states of all objects. -/
def snapshot (s : StateSequence) : Element :=
  ⟨Element.lastIndices s.visibleObjects, s.runnerToObjMap.size⟩

def pushStateSnapshot (s : StateSequence) : StateSequence :=
  { s with earlier := s.earlier ++ [s.representative], representative := s.snapshot }

/-! #### Queries of an element -/

section

variable (s : StateSequence) (e : Element)

def containsRunnerWithIdAt (p : RunnerId) : Bool :=
  decide (p < e.maxVisibleRunnerId) && (s.runnerToObjMap.lookup p).isSome

/-- The object of a runner; `none` is `invalid_objid`. -/
def getObjidForRunnerAt (p : RunnerId) : Option ObjId :=
  if s.containsRunnerWithIdAt e p then s.runnerToObjMap.lookup p else none

def isRunnerAt (id : ObjId) : Bool :=
  e.containsObjectWithId id && (s.runnerToObjMap.rangeLookup id).isSome

/-- The runner of an object; `none` is `invalid_rid`. -/
def getRunnerIdForObjAt (id : ObjId) : Option RunnerId :=
  if s.isRunnerAt e id then s.runnerToObjMap.rangeLookup id else none

/-- The state of an object, by two checked lookups. -/
def getStateOfObjectAt (id : ObjId) : Except Failure VisibleObjectState :=
  match s.visibleObjects[id]?, e.visibleObjectIndices.lookup id with
  | some v, some n =>
    match v.history[n]? with
    | some o => .ok o
    | none => .error .outOfRange
  | _, _ => .error .outOfRange

/-- What the element answers when it is queried. -/
def stateAt : State where
  objectState id := (s.getStateOfObjectAt e id).toOption
  objidForRunner := s.getObjidForRunnerAt e
  objidForRunner_injective := by
    intro p q i hp hq
    simp only [getObjidForRunnerAt] at hp hq
    split_ifs at hp hq
    exact InjectiveFunction.lookup_injective hp hq

end

/-- The state which represents the sequence. -/
def toState (s : StateSequence) : State := s.stateAt s.representative

theorem getStateOfObjectAt_eq_ok {s : StateSequence} {e : Element} {id : ObjId}
    {o : VisibleObjectState} :
    s.getStateOfObjectAt e id = .ok o ↔
      ∃ v n, s.visibleObjects[id]? = some v ∧ e.visibleObjectIndices.lookup id = some n ∧
        v.history[n]? = some o := by
  unfold getStateOfObjectAt
  cases s.visibleObjects[id]? with
  | none => simp
  | some v =>
    cases e.visibleObjectIndices.lookup id with
    | none => simp
    | some n => cases h : v.history[n]? <;> simp [h]

/-! #### Adding to the sequence -/

/-- Begins tracking an object. Its id is the position it gets in the owner's list. -/
def addObject (s : StateSequence) (o : VisibleObjectState) : StateSequence × ObjId :=
  let id := s.visibleObjects.length
  ({ s with
      representative := s.representative.pointToNextStateFor id
      visibleObjects := s.visibleObjects ++ [VisibleObject.ofState o] }, id)

def addRunner (s : StateSequence) (t : Thread) : StateSequence × Except Failure RunnerId :=
  let (s, runnerObjid) := s.addObject (.thread t)
  let nextRunnerId := s.runnerToObjMap.size
  match s.runnerToObjMap.insert nextRunnerId runnerObjid with
  | none => (s, .error (.runtimeError ("A value in the domain already maps to this value. " ++
      "This would break the one-to-one invariance of this mapping")))
  | some runnerToObjMap =>
    ({ s with runnerToObjMap, representative := s.representative.recordNewRunner },
      .ok nextRunnerId)

/-- When the runners are numbered consecutively and their objects exist, a new runner gets the
next number and the new object. -/
theorem addRunner_eq {s : StateSequence}
    (hkeys : s.runnerToObjMap.forward.keys = Finset.range s.runnerToObjMap.size)
    (hobjects : ∀ p i, s.runnerToObjMap.lookup p = some i → i < s.visibleObjects.length)
    (t : Thread) :
    ∃ m : InjectiveFunction RunnerId ObjId,
      m.forward = s.runnerToObjMap.forward.insert s.runnerToObjMap.size s.visibleObjects.length ∧
      s.addRunner t =
        (⟨m, (s.addObject (.thread t)).1.visibleObjects, s.earlier,
            (s.addObject (.thread t)).1.representative.recordNewRunner⟩,
          .ok s.runnerToObjMap.size) := by
  have hfree : s.runnerToObjMap.lookup s.runnerToObjMap.size = none := by
    rw [InjectiveFunction.lookup, Finmap.lookup_eq_none, ← Finmap.mem_keys, hkeys]
    exact Finset.notMem_range_self
  have hnew : ∀ p, s.runnerToObjMap.lookup p ≠ some s.visibleObjects.length :=
    fun p hp => lt_irrefl _ (hobjects p _ hp)
  obtain ⟨m, hm, hforward⟩ := InjectiveFunction.exists_insert hfree hnew
  refine ⟨m, hforward, ?_⟩
  simp only [addRunner, addObject, hm]

/-- The representative is redirected before the object is looked up. -/
def addStateForObj (s : StateSequence) (id : ObjId) (o : VisibleObjectState) :
    StateSequence × Except Failure Unit :=
  if id = objidInvalid then
    (s, .error (.runtimeError "Attempted to insert a state for an invalid object id"))
  else
    let s := { s with representative := s.representative.pointToNextStateFor id }
    match s.visibleObjects[id]? with
    | none => (s, .error .outOfRange)
    | some v => ({ s with visibleObjects := s.visibleObjects.set id (v.pushState o) }, .ok ())

def addStateForRunner (s : StateSequence) (p : RunnerId) (t : Thread) :
    StateSequence × Except Failure Unit :=
  match s.getObjidForRunnerAt s.representative p with
  | none => (s, .error (.runtimeError ("Attempted to insert a state for a runner that does " ++
      "not exist in this state.")))
  | some objid => s.addStateForObj objid (.thread t)

/-- Pushes the new states of objects, by an unchecked index. -/
def pushNewStates (objects : List VisibleObject)
    (newStates : List (Sigma fun _ : ObjId => VisibleObjectState)) : List VisibleObject :=
  newStates.foldl (fun objects new => objects.modify new.1 (·.pushState new.2)) objects

theorem pushNewStates_length (objects : List VisibleObject)
    (newStates : List (Sigma fun _ : ObjId => VisibleObjectState)) :
    (pushNewStates objects newStates).length = objects.length := by
  induction newStates generalizing objects with
  | nil => rfl
  | cons new newStates ih => exact (ih _).trans (List.length_modify _ _ _)

/-- Pushes the new states, and appends a view of them. -/
def record (s : StateSequence) (result : DiffState) : StateSequence :=
  pushStateSnapshot
    { s with visibleObjects := pushNewStates s.visibleObjects result.newObjectStates.entries }

/-- Applies the transition to the final state, and appends the result if it is defined. -/
def follow (s : StateSequence) (t : Transition) : StateSequence × Except Failure Status :=
  match t.applyTo s.toState with
  | .error e => (s, .error e)
  | .ok (result, .exists') => (s.record result, .ok .exists')
  | .ok (_, status) => (s, .ok status)

/-! #### Going back -/

/-- Cuts the histories of the objects from the given id on to what the element sees of
them, and those of the objects it does not contain to their initial states. -/
def sliceObjects (e : Element) : ObjId → List VisibleObject →
    List VisibleObject × Except Failure Unit
  | _, [] => ([], .ok ())
  | i, v :: vs =>
    if e.containsObjectWithId i then
      match e.visibleObjectIndices.lookup i with
      | none => (v :: vs, .error .outOfRange)
      | some idx =>
        let (vs, result) := sliceObjects e (i + 1) vs
        (v.slice idx :: vs, result)
    else
      let (vs, result) := sliceObjects e (i + 1) vs
      (v.slice 0 :: vs, result)

/-- When containment agrees with the entries nothing is thrown, and every object is cut to
its entry. -/
theorem sliceObjects_eq {e : Element}
    (h : ∀ id, e.containsObjectWithId id = true ↔ id ∈ e.visibleObjectIndices) (i : ObjId)
    (objects : List VisibleObject) :
    sliceObjects e i objects = ((objects.zipIdx i).map fun v =>
      v.1.slice ((e.visibleObjectIndices.lookup v.2).getD 0), .ok ()) := by
  induction objects generalizing i with
  | nil => rfl
  | cons v vs ih =>
    have hi := h i
    rw [sliceObjects, ih (i + 1), List.zipIdx_cons, List.map_cons]
    cases hlookup : e.visibleObjectIndices.lookup i with
    | none =>
      have hmem : ¬ e.containsObjectWithId i = true :=
        fun hc => Finmap.lookup_eq_none.mp hlookup (hi.mp hc)
      simp [hmem]
    | some idx =>
      have hmem := hi.mpr (Finmap.mem_of_lookup_eq_some hlookup)
      simp [hmem]

/-- Leaves the first `numStates` elements. A sequence without elements has no
representative. -/
def consumeIntoSubsequence (s : StateSequence) (numStates : ℕ) :
    StateSequence × Except Failure Unit :=
  if s.statesInSequence.length ≤ numStates then (s, .ok ())
  else match numStates with
    | 0 => (s, .error (.undefinedBehavior "back() of an empty vector"))
    | n + 1 =>
      match s.earlier[n]? with
      | none => (s, .ok ())
      | some representative =>
        let (visibleObjects, result) := sliceObjects representative 0 s.visibleObjects
        ({ s with visibleObjects, earlier := s.earlier.take n, representative }, result)

/-! #### Initial sequences -/

/-- `state_sequence()`. -/
def empty : StateSequence := ⟨.empty, [], [], ⟨∅, 0⟩⟩

end StateSequence

/-- A state of the program outside of a sequence. Its runners are numbered consecutively,
and each is one of its objects. -/
structure DetachedState where
  visibleObjects : List VisibleObjectState
  runnerToObjMap : InjectiveFunction RunnerId ObjId
  keys_eq_range : runnerToObjMap.forward.keys = Finset.range runnerToObjMap.size
  lookup_lt : ∀ {p i}, runnerToObjMap.lookup p = some i → i < visibleObjects.length

/-- The state of a program at `main`: the main thread, which is running. -/
def DetachedState.atMain : DetachedState where
  visibleObjects := [.thread ⟨.running⟩]
  runnerToObjMap := (InjectiveFunction.empty.insert ridMainThread 0).get rfl
  keys_eq_range := rfl
  lookup_lt := by
    intro p i h
    have h' : (if ridMainThread = p then some 0 else none) = some i := by
      rw [← h]
      exact (lookup_insert ∅ ridMainThread p 0).symm
    split_ifs at h'
    exact Option.some.inj h' ▸ Nat.one_pos

/-- `state_sequence(const state &)`: the objects are added one after the other, and the
runners keep their ids. -/
def StateSequence.ofDetachedState (d : DetachedState) : StateSequence :=
  let s := d.visibleObjects.foldl (fun s o => (s.addObject o).1) StateSequence.empty
  { s with
    runnerToObjMap := d.runnerToObjMap
    representative := { s.representative with maxVisibleRunnerId := d.runnerToObjMap.size } }

end McMini
