import McMini.Model.Refinement
import McMini.Model.StoredStates

/-!
# State sequences in memory

The state sequences of `McMini/Model/StateSequence.lean` as they are in memory: the histories of
the objects consist of stored states, and the states of the condition variables in them point to
policies, of which several may point to the same. Constructing a sequence from a state copies the
condition variables of the state, and so shares their policies with it.

A stored sequence *is* a sequence `q` when following the pointers gives `q`
(`StoredSequence.Reads`). This stays so while policies are allocated, and every operation on the
stored sequence does what the operation of the same name does on `q`.
-/

namespace McMini

open Foundation

/-! ### Objects with their histories -/

/-- An object with all its stored states, oldest first. There is always at least one. -/
structure StoredObject where
  history : List StoredObjectState
  history_ne_nil : history ≠ []

namespace StoredObject

def ofState (o : StoredObjectState) : StoredObject := ⟨[o], List.cons_ne_nil _ _⟩

def getLastStateIndex (v : StoredObject) : ℕ := v.history.length - 1

def pushState (v : StoredObject) (o : StoredObjectState) : StoredObject :=
  ⟨v.history ++ [o], by simp⟩

/-- Leaves the states up to the given position. -/
def slice (v : StoredObject) (index : ℕ) : StoredObject :=
  ⟨v.history.take (index + 1), by simp [v.history_ne_nil]⟩

end StoredObject

/-- A state of the program outside of a sequence, as it is stored. -/
structure StoredDetachedState where
  visibleObjects : List StoredObjectState
  runnerToObjMap : InjectiveFunction RunnerId ObjId
  keys_eq_range : runnerToObjMap.forward.keys = Finset.range runnerToObjMap.size
  lookup_lt : ∀ {p i}, runnerToObjMap.lookup p = some i → i < visibleObjects.length

/-! ### Sequences -/

/-- A sequence of states, as it is stored. -/
structure StoredSequence where
  runnerToObjMap : InjectiveFunction RunnerId ObjId
  visibleObjects : List StoredObject
  earlier : List Element
  representative : Element

namespace StoredSequence

/-- `states_in_sequence`. -/
def statesInSequence (s : StoredSequence) : List Element := s.earlier ++ [s.representative]

/-- `element(const state_sequence *owner)`: a view of the last states of all objects. -/
def snapshot (s : StoredSequence) : Element where
  visibleObjectIndices := s.visibleObjects.zipIdx.foldl
    (fun indices v => indices.insert v.2 v.1.getLastStateIndex) ∅
  maxVisibleRunnerId := s.runnerToObjMap.size

def pushStateSnapshot (s : StoredSequence) : StoredSequence :=
  { s with earlier := s.earlier ++ [s.representative], representative := s.snapshot }

/-- The object of a runner; `none` is `invalid_objid`. -/
def getObjidForRunnerAt (s : StoredSequence) (e : Element) (p : RunnerId) : Option ObjId :=
  if decide (p < e.maxVisibleRunnerId) && (s.runnerToObjMap.lookup p).isSome then
    s.runnerToObjMap.lookup p
  else none

/-- The state of an object, by two checked lookups. -/
def getStateOfObjectAt (s : StoredSequence) (e : Element) (id : ObjId) :
    Except Failure StoredObjectState :=
  match s.visibleObjects[id]?, e.visibleObjectIndices.lookup id with
  | some v, some n =>
    match v.history[n]? with
    | some o => .ok o
    | none => .error .outOfRange
  | _, _ => .error .outOfRange

/-- What the element answers when it is queried. -/
def stateAt (s : StoredSequence) (e : Element) : StoredState where
  objectState id := (s.getStateOfObjectAt e id).toOption
  objidForRunner := s.getObjidForRunnerAt e

/-- The state which represents the sequence. -/
def toState (s : StoredSequence) : StoredState := s.stateAt s.representative

/-- Begins tracking an object. -/
def addObject (s : StoredSequence) (o : StoredObjectState) : StoredSequence :=
  { s with
    representative := s.representative.pointToNextStateFor s.visibleObjects.length
    visibleObjects := s.visibleObjects ++ [StoredObject.ofState o] }

/-- `state_sequence()`. -/
def empty : StoredSequence := ⟨.empty, [], [], ⟨∅, 0⟩⟩

/-- `state_sequence(const state &)`: the clone of a condition variable is a copy of it, with the
same pointer. -/
def ofDetachedState (d : StoredDetachedState) : StoredSequence :=
  let s := d.visibleObjects.foldl addObject empty
  { s with
    runnerToObjMap := d.runnerToObjMap
    representative := { s.representative with maxVisibleRunnerId := d.runnerToObjMap.size } }

/-- Pushes the new states of objects, by an unchecked index. -/
def pushNewStates (objects : List StoredObject)
    (newStates : List (Sigma fun _ : ObjId => StoredObjectState)) : List StoredObject :=
  newStates.foldl (fun objects new => objects.modify new.1 (·.pushState new.2)) objects

/-- Applies the transition to the final state, and appends the result if it is defined. -/
def follow (s : StoredSequence) (t : Transition) (cells : PolicyMemory) :
    (StoredSequence × Except Failure Status) × PolicyMemory :=
  match (Stored.applyTo t s.toState).run cells with
  | (.error e, cells) => ((s, .error e), cells)
  | (.ok (result, .exists'), cells) =>
    ((pushStateSnapshot
      { s with visibleObjects := pushNewStates s.visibleObjects result.newObjectStates.entries },
      .ok .exists'), cells)
  | (.ok (_, status), cells) => ((s, .ok status), cells)

/-- Cuts the histories of the objects from the given id on to what the element sees of
them, and those of the objects it does not contain to their initial states. -/
def sliceObjects (e : Element) : ObjId → List StoredObject →
    List StoredObject × Except Failure Unit
  | _, [] => ([], .ok ())
  | i, v :: vs =>
    if e.containsObjectWithId i then
      match e.visibleObjectIndices.lookup i with
      | none => (v :: vs, .error .outOfRange)
      | some idx =>
        let (vs, result) := sliceObjects e (i + 1) vs
        (v.slice idx :: vs, result)
    else
      let (vs, result) := sliceObjects e (i + 1) vs
      (v.slice 0 :: vs, result)

/-- Leaves the first `numStates` elements. -/
def consumeIntoSubsequence (s : StoredSequence) (numStates : ℕ) :
    StoredSequence × Except Failure Unit :=
  if s.statesInSequence.length ≤ numStates then (s, .ok ())
  else match numStates with
    | 0 => (s, .error (.undefinedBehavior "back() of an empty vector"))
    | n + 1 =>
      match s.earlier[n]? with
      | none => (s, .ok ())
      | some representative =>
        let (visibleObjects, result) := sliceObjects representative 0 s.visibleObjects
        ({ s with visibleObjects, earlier := s.earlier.take n, representative }, result)

end StoredSequence

/-! ### What stored sequences are -/

variable {cells cells' : PolicyMemory}

/-- The history is that of the object `w`. -/
def StoredObject.Reads (cells : PolicyMemory) (v : StoredObject) (w : VisibleObject) : Prop :=
  List.Forall₂ (StoredObjectState.Reads cells) v.history w.history

namespace StoredObject.Reads

variable {v : StoredObject} {w : VisibleObject} {o : StoredObjectState} {o' : VisibleObjectState}

theorem mono (h : v.Reads cells w) (hcells : cells <+: cells') : v.Reads cells' w :=
  List.Forall₂.imp (fun _ _ ho => ho.mono hcells) h

theorem getLastStateIndex (h : v.Reads cells w) : v.getLastStateIndex = w.getLastStateIndex := by
  rw [StoredObject.getLastStateIndex, VisibleObject.getLastStateIndex, h.length_eq]

theorem pushState (h : v.Reads cells w) (ho : o.Reads cells o') :
    (v.pushState o).Reads cells (w.pushState o') :=
  List.rel_append h (.cons ho .nil)

theorem slice (h : v.Reads cells w) (index : ℕ) :
    (v.slice index).Reads cells (w.slice index) := List.forall₂_take (index + 1) h

end StoredObject.Reads

/-- Corresponding entries of lists are related. -/
theorem rel_getElem? {α β : Type} {R : α → β → Prop} {l : List α} {l' : List β}
    (h : List.Forall₂ R l l') (i : ℕ) : Option.Rel R (l[i]?) (l'[i]?) := by
  induction h generalizing i with
  | nil => exact .none
  | cons hab _ ih =>
    cases i with
    | zero => exact .some hab
    | succ i => exact ih i

theorem forall₂_modify {α β : Type} {R : α → β → Prop} {l : List α} {l' : List β} {f : α → α}
    {g : β → β} (h : List.Forall₂ R l l') (hfg : ∀ {a b}, R a b → R (f a) (g b)) (i : ℕ) :
    List.Forall₂ R (l.modify i f) (l'.modify i g) := by
  induction h generalizing i with
  | nil =>
    rw [List.modify_nil, List.modify_nil]
    exact .nil
  | cons hab hrest ih =>
    cases i with
    | zero => exact .cons (hfg hab) hrest
    | succ i => exact .cons hab (ih i)

/-- The stored state is the state `d'`. -/
structure StoredDetachedState.Reads (cells : PolicyMemory) (d : StoredDetachedState)
    (d' : DetachedState) : Prop where
  objects : List.Forall₂ (StoredObjectState.Reads cells) d.visibleObjects d'.visibleObjects
  runners : d.runnerToObjMap = d'.runnerToObjMap

namespace StoredSequence

/-- Following the pointers gives the sequence `q`. -/
structure Reads (cells : PolicyMemory) (s : StoredSequence) (q : StateSequence) : Prop where
  runners : s.runnerToObjMap = q.runnerToObjMap
  objects : List.Forall₂ (StoredObject.Reads cells) s.visibleObjects q.visibleObjects
  earlier : s.earlier = q.earlier
  representative : s.representative = q.representative

variable {s : StoredSequence} {q : StateSequence}

theorem Reads.mono (h : s.Reads cells q) (hcells : cells <+: cells') : s.Reads cells' q :=
  ⟨h.runners, h.objects.imp fun _ _ hv => hv.mono hcells, h.earlier, h.representative⟩

theorem Reads.statesInSequence (h : s.Reads cells q) :
    s.statesInSequence = q.statesInSequence := by
  rw [StoredSequence.statesInSequence, h.earlier, h.representative, StateSequence.statesInSequence]

/-- Every state of the sequence is stored in its element. -/
theorem Reads.stateAt (h : s.Reads cells q) (e : Element) :
    (s.stateAt e).Reads cells (q.stateAt e) := by
  refine ⟨fun id => ?_, ?_⟩
  · simp only [StoredSequence.stateAt, StateSequence.stateAt, getStateOfObjectAt,
      StateSequence.getStateOfObjectAt]
    have hid := rel_getElem? h.objects id
    generalize s.visibleObjects[id]? = v at hid ⊢
    generalize q.visibleObjects[id]? = w at hid ⊢
    cases hid with
    | none => exact .none
    | some hv =>
      cases e.visibleObjectIndices.lookup id with
      | none => exact .none
      | some n =>
        have hn := rel_getElem? hv n
        dsimp only
        generalize (_ : StoredObject).history[n]? = o at hn ⊢
        generalize (_ : VisibleObject).history[n]? = o' at hn ⊢
        cases hn with
        | none => exact .none
        | some ho => exact .some ho
  · funext p
    simp only [StoredSequence.stateAt, StateSequence.stateAt, getObjidForRunnerAt,
      StateSequence.getObjidForRunnerAt, StateSequence.containsRunnerWithIdAt, h.runners]
    rfl

theorem Reads.toState (h : s.Reads cells q) : s.toState.Reads cells q.toState := by
  rw [StoredSequence.toState, StateSequence.toState, h.representative]
  exact h.stateAt q.representative

theorem Reads.snapshot (h : s.Reads cells q) : s.snapshot = q.snapshot := by
  have hindices : ∀ (k : ℕ) (acc : Finmap fun _ : ObjId => ℕ),
      (s.visibleObjects.zipIdx k).foldl
          (fun indices v => indices.insert v.2 v.1.getLastStateIndex) acc =
        (q.visibleObjects.zipIdx k).foldl
          (fun indices v => indices.insert v.2 v.1.getLastStateIndex) acc := by
    have hobjects := h.objects
    generalize s.visibleObjects = objects at hobjects
    generalize q.visibleObjects = objects' at hobjects
    induction hobjects with
    | nil => exact fun _ _ => rfl
    | cons hv _ ih =>
      intro k acc
      rw [List.zipIdx_cons, List.zipIdx_cons, List.foldl_cons, List.foldl_cons,
        hv.getLastStateIndex]
      exact ih (k + 1) _
  rw [StoredSequence.snapshot, StateSequence.snapshot, Element.lastIndices, hindices 0 ∅,
    h.runners]

theorem Reads.pushStateSnapshot (h : s.Reads cells q) :
    s.pushStateSnapshot.Reads cells q.pushStateSnapshot := by
  refine ⟨h.runners, h.objects, ?_, h.snapshot⟩
  show s.earlier ++ [s.representative] = q.earlier ++ [q.representative]
  rw [h.earlier, h.representative]

theorem forall₂_pushNewStates {objects : List StoredObject} {objects' : List VisibleObject}
    {new : List (Sigma fun _ : ObjId => StoredObjectState)}
    {new' : List (Sigma fun _ : ObjId => VisibleObjectState)}
    (hobjects : List.Forall₂ (StoredObject.Reads cells) objects objects')
    (hnew : List.Forall₂ (StoredDiffState.EntryReads cells) new new') :
    List.Forall₂ (StoredObject.Reads cells) (pushNewStates objects new)
      (StateSequence.pushNewStates objects' new') := by
  induction hnew generalizing objects objects' with
  | nil => exact hobjects
  | @cons x y new new' hxy _ ih =>
    obtain ⟨id, o⟩ := x
    obtain ⟨id', o'⟩ := y
    obtain ⟨rfl, ho⟩ := hxy
    exact ih (forall₂_modify hobjects (fun hv => hv.pushState ho) id)

/-- **Following a transition** changes no policy which was there, and does to the stored sequence
what it does to the sequence. -/
theorem Reads.follow (h : s.Reads cells q) (t : Transition) :
    cells <+: (s.follow t cells).2 ∧
      (s.follow t cells).1.1.Reads (s.follow t cells).2 (q.follow t).1 ∧
      (s.follow t cells).1.2 = (q.follow t).2 := by
  obtain ⟨hcells, hagree⟩ := Stored.applyTo_implements t h.toState
  unfold StoredSequence.follow StateSequence.follow
  rcases hrun : (Stored.applyTo t s.toState).run cells with ⟨r, cells'⟩
  rw [hrun] at hcells hagree
  dsimp only at hcells hagree
  have hkept := h.mono hcells
  generalize t.applyTo q.toState = r' at hagree ⊢
  cases hagree with
  | error e => exact ⟨hcells, hkept, rfl⟩
  | @ok a b hab =>
    obtain ⟨d, st⟩ := a
    obtain ⟨d', st'⟩ := b
    obtain ⟨hd, rfl⟩ := hab
    cases st with
    | disabled | undefined => exact ⟨hcells, hkept, rfl⟩
    | exists' =>
      refine ⟨hcells, Reads.pushStateSnapshot ?_, rfl⟩
      exact ⟨h.runners, forall₂_pushNewStates hkept.objects hd.newObjectStates, h.earlier,
        h.representative⟩

/-- A check for being enabled, in any state of the sequence, changes no policy either. -/
theorem Reads.isEnabledIn (h : s.Reads cells q) (t : Transition) (e : Element) :
    cells <+: ((Stored.isEnabledIn t (s.stateAt e)).run cells).2 :=
  (Stored.isEnabledIn_implements t (h.stateAt e)).1

theorem forall₂_sliceObjects {e : Element} {objects : List StoredObject}
    {objects' : List VisibleObject}
    (h : List.Forall₂ (StoredObject.Reads cells) objects objects') (i : ObjId) :
    List.Forall₂ (StoredObject.Reads cells) (sliceObjects e i objects).1
        (StateSequence.sliceObjects e i objects').1 ∧
      (sliceObjects e i objects).2 = (StateSequence.sliceObjects e i objects').2 := by
  induction h generalizing i with
  | nil => exact ⟨.nil, rfl⟩
  | cons hv hrest ih =>
    rw [sliceObjects, StateSequence.sliceObjects]
    split_ifs with hcontains
    · cases e.visibleObjectIndices.lookup i with
      | none => exact ⟨.cons hv hrest, rfl⟩
      | some idx => exact ⟨.cons (hv.slice idx) (ih (i + 1)).1, (ih (i + 1)).2⟩
    · exact ⟨.cons (hv.slice 0) (ih (i + 1)).1, (ih (i + 1)).2⟩

/-- Going back does to the stored sequence what it does to the sequence. -/
theorem Reads.consumeIntoSubsequence (h : s.Reads cells q) (n : ℕ) :
    (s.consumeIntoSubsequence n).1.Reads cells (q.consumeIntoSubsequence n).1 ∧
      (s.consumeIntoSubsequence n).2 = (q.consumeIntoSubsequence n).2 := by
  unfold StoredSequence.consumeIntoSubsequence StateSequence.consumeIntoSubsequence
  rw [h.statesInSequence]
  split_ifs with hn
  · exact ⟨h, rfl⟩
  · cases n with
    | zero => exact ⟨h, rfl⟩
    | succ n =>
      dsimp only
      rw [h.earlier]
      cases q.earlier[n]? with
      | none => exact ⟨h, rfl⟩
      | some e =>
        obtain ⟨hobjects, hresult⟩ := forall₂_sliceObjects (e := e) h.objects 0
        exact ⟨⟨h.runners, hobjects, rfl, rfl⟩, hresult⟩

theorem Reads.addObject (h : s.Reads cells q) {o : StoredObjectState} {o' : VisibleObjectState}
    (ho : o.Reads cells o') : (s.addObject o).Reads cells (q.addObject o').1 := by
  refine ⟨h.runners, List.rel_append h.objects (.cons (.cons ho .nil) .nil), h.earlier, ?_⟩
  show s.representative.pointToNextStateFor s.visibleObjects.length = _
  rw [h.representative, h.objects.length_eq]
  rfl

/-- The initial sequence shares the policies of the state it is constructed from. -/
theorem reads_ofDetachedState {d : StoredDetachedState} {d' : DetachedState}
    (h : d.Reads cells d') :
    (ofDetachedState d).Reads cells (StateSequence.ofDetachedState d') := by
  have hadd : ∀ {s q} {objects : List StoredObjectState} {objects' : List VisibleObjectState},
      s.Reads cells q → List.Forall₂ (StoredObjectState.Reads cells) objects objects' →
      (objects.foldl addObject s).Reads cells
        (objects'.foldl (fun s o => (s.addObject o).1) q) := by
    intro s q objects objects' hs hobjects
    induction hobjects generalizing s q with
    | nil => exact hs
    | cons ho _ ih => exact ih (hs.addObject ho)
  have hempty : empty.Reads cells StateSequence.empty := ⟨rfl, .nil, rfl, rfl⟩
  have hobjects := hadd hempty h.objects
  refine ⟨h.runners, hobjects.objects, hobjects.earlier, ?_⟩
  simp only [ofDetachedState, StateSequence.ofDetachedState, h.runners, hobjects.representative]

end StoredSequence

end McMini
