import McMini.Model.Unchecked

/-!
# The representation invariant of state sequences

An element of a state sequence answers whether it contains an object by comparing the id
with the number of its entries. The answer is right as long as the entries are those of an
initial segment of the ids, and every entry is a position in the object's history. New ids
are taken from the owner's lists, which still hold the objects and runners of the states
which were consumed. An object added while such leftovers exist gets an id beyond the
segment, and the answers become wrong.

Following a transition is harmless. It may record states of objects which the last element does not
contain (`Unchecked.follow`), but the element which it appends sees everything.

`representationInvariant_iff` is the exact condition: in a run of calls the invariant holds
throughout, every id just handed out is contained, and no call has undefined behavior, precisely
when no object or runner is added while the representative misses one which the owner has, no
state is added for an object which the owner does not have or beyond the first which the
representative misses, and the transitions which are followed are defined and change objects of
the owner only.
-/

namespace McMini

open Foundation

namespace StateSequence

/-! ### Growing histories -/

/-- Every object keeps its id, and no history gets shorter. -/
def Grows (objects objects' : List VisibleObject) : Prop :=
  ∀ (i : ObjId) (v : VisibleObject), objects[i]? = some v →
    ∃ v' : VisibleObject, objects'[i]? = some v' ∧ v.history.length ≤ v'.history.length

section Grows

variable {objects objects' objects'' : List VisibleObject}

theorem Grows.refl (objects : List VisibleObject) : Grows objects objects :=
  fun _ v h => ⟨v, h, le_rfl⟩

theorem Grows.trans (h : Grows objects objects') (h' : Grows objects' objects'') :
    Grows objects objects'' := by
  intro i v hv
  obtain ⟨v', hv', hle⟩ := h i v hv
  obtain ⟨v'', hv'', hle'⟩ := h' i v' hv'
  exact ⟨v'', hv'', hle.trans hle'⟩

theorem grows_append (objects new : List VisibleObject) : Grows objects (objects ++ new) := by
  intro i v hv
  obtain ⟨hi, -⟩ := List.getElem?_eq_some_iff.mp hv
  exact ⟨v, by rw [List.getElem?_append_left hi, hv], le_rfl⟩

theorem grows_modify (objects : List VisibleObject) (id : ObjId) (o : VisibleObjectState) :
    Grows objects (objects.modify id (·.pushState o)) := by
  intro i v hv
  rw [List.getElem?_modify, hv]
  refine ⟨_, rfl, ?_⟩
  dsimp only
  split <;> simp

theorem grows_set {id : ObjId} {v : VisibleObject} (h : objects[id]? = some v)
    (o : VisibleObjectState) : Grows objects (objects.set id (v.pushState o)) := by
  intro i w hw
  obtain ⟨hi, -⟩ := List.getElem?_eq_some_iff.mp hw
  rw [List.getElem?_set]
  split
  next heq =>
    subst heq
    obtain rfl : v = w := Option.some.inj (h.symm.trans hw)
    exact ⟨v.pushState o, if_pos hi, by simp⟩
  next => exact ⟨w, hw, le_rfl⟩

theorem grows_pushNewStates (objects : List VisibleObject)
    (newStates : List (Sigma fun _ : ObjId => VisibleObjectState)) :
    Grows objects (pushNewStates objects newStates) := by
  induction newStates generalizing objects with
  | nil => exact Grows.refl objects
  | cons new newStates ih => exact (grows_modify objects new.1 new.2).trans (ih _)

end Grows

/-! ### Elements -/

/-- The element sees objects of the list only: its answers about containment agree with its
entries, and the entries are positions in the histories. -/
structure Represents (objects : List VisibleObject) (e : Element) : Prop where
  contains_iff : ∀ id, e.containsObjectWithId id = true ↔ id ∈ e.visibleObjectIndices
  valid : ∀ id n, e.visibleObjectIndices.lookup id = some n →
    ∃ v, objects[id]? = some v ∧ n < v.history.length

/-- `e'` contains what `e` contains, at later positions of the histories. -/
def Precedes (e e' : Element) : Prop :=
  ∀ id n, e.visibleObjectIndices.lookup id = some n →
    ∃ n', e'.visibleObjectIndices.lookup id = some n' ∧ n ≤ n'

section Elements

variable {objects objects' : List VisibleObject} {e e' e'' : Element} {id : ObjId}

/-- Containment agrees with the entries when these are an initial segment of the ids. -/
theorem contains_iff_iff_keys :
    (∀ id, e.containsObjectWithId id = true ↔ id ∈ e.visibleObjectIndices) ↔
      e.visibleObjectIndices.keys = Finset.range e.count := by
  simp only [Element.containsObjectWithId, decide_eq_true_eq, Finset.ext_iff,
    Finset.mem_range, Finmap.mem_keys]
  exact forall_congr' fun id => iff_comm

theorem Represents.keys (h : Represents objects e) :
    e.visibleObjectIndices.keys = Finset.range e.count :=
  contains_iff_iff_keys.mp h.contains_iff

theorem Represents.grows (h : Represents objects e) (hgrows : Grows objects objects') :
    Represents objects' e := by
  refine ⟨h.contains_iff, fun id n hn => ?_⟩
  obtain ⟨v, hv, hlt⟩ := h.valid id n hn
  obtain ⟨v', hv', hle⟩ := hgrows id v hv
  exact ⟨v', hv', hlt.trans_le hle⟩

/-- A contained object has a state. -/
theorem Represents.exists_state {s : StateSequence} (h : Represents s.visibleObjects e)
    (hid : e.containsObjectWithId id = true) : ∃ o, s.getStateOfObjectAt e id = .ok o := by
  obtain ⟨n, hn⟩ := Finmap.mem_iff.mp ((h.contains_iff id).mp hid)
  obtain ⟨v, hv, hlt⟩ := h.valid id n hn
  exact ⟨v.history[n], getStateOfObjectAt_eq_ok.mpr
    ⟨v, n, hv, hn, List.getElem?_eq_getElem hlt⟩⟩

theorem Represents.count_le (h : Represents objects e) : e.count ≤ objects.length := by
  by_contra hlt
  have hmem : objects.length ∈ e.visibleObjectIndices := by
    rw [← Finmap.mem_keys, h.keys, Finset.mem_range]
    exact not_le.mp hlt
  obtain ⟨n, hn⟩ := Finmap.mem_iff.mp hmem
  obtain ⟨v, hv, -⟩ := h.valid _ _ hn
  simp at hv

theorem Precedes.refl (e : Element) : Precedes e e := fun _ n h => ⟨n, h, le_rfl⟩

theorem Precedes.trans (h : Precedes e e') (h' : Precedes e' e'') : Precedes e e'' := by
  intro id n hn
  obtain ⟨n', hn', hle⟩ := h id n hn
  obtain ⟨n'', hn'', hle'⟩ := h' id n' hn'
  exact ⟨n'', hn'', hle.trans hle'⟩

theorem Precedes.mem (h : Precedes e e') (hid : id ∈ e.visibleObjectIndices) :
    id ∈ e'.visibleObjectIndices := by
  obtain ⟨n, hn⟩ := Finmap.mem_iff.mp hid
  obtain ⟨n', hn', -⟩ := h id n hn
  exact Finmap.mem_of_lookup_eq_some hn'

theorem precedes_pointToNextStateFor (e : Element) (id : ObjId) :
    Precedes e (e.pointToNextStateFor id) := by
  intro j n hn
  by_cases hj : j = id
  · subst hj
    exact ⟨n + 1, by rw [Element.pointToNextStateFor_lookup_self, hn]; rfl, Nat.le_succ n⟩
  · exact ⟨n, by rw [Element.pointToNextStateFor_lookup_of_ne hj, hn], le_rfl⟩

/-- Redirecting an element to the next state of an object which has one: the answers about
containment stay right exactly when the object is contained or is the first which is not. -/
theorem contains_iff_pointToNextStateFor (h : Represents objects e) :
    (∀ j, (e.pointToNextStateFor id).containsObjectWithId j = true ↔
        j ∈ (e.pointToNextStateFor id).visibleObjectIndices) ↔ id ≤ e.count := by
  rw [contains_iff_iff_keys, Element.count, Element.pointToNextStateFor_keys]
  exact eq_range_insert_iff h.keys

/-- A snapshot sees every object in its last state. -/
theorem represents_snapshot (s : StateSequence) : Represents s.visibleObjects s.snapshot := by
  have hkeys : s.snapshot.visibleObjectIndices.keys = Finset.range s.visibleObjects.length := by
    ext id
    rw [Finmap.mem_keys, ← Finmap.lookup_isSome]
    simp [snapshot, Element.lastIndices_lookup]
  refine ⟨?_, fun id n hn => ?_⟩
  · rw [contains_iff_iff_keys, Element.count, hkeys, Finset.card_range]
  · simp only [snapshot, Element.lastIndices_lookup, Option.map_eq_some_iff] at hn
    obtain ⟨v, hv, rfl⟩ := hn
    exact ⟨v, hv, v.getLastStateIndex_lt⟩

/-- The representative precedes a snapshot. -/
theorem Represents.precedes_snapshot {s : StateSequence} (h : Represents s.visibleObjects e) :
    Precedes e s.snapshot := by
  intro id n hn
  obtain ⟨v, hv, hlt⟩ := h.valid id n hn
  refine ⟨v.getLastStateIndex, by simp [snapshot, Element.lastIndices_lookup, hv], ?_⟩
  exact Nat.le_sub_one_of_lt hlt

end Elements

/-! ### Sequences -/

/-- The representation invariant: every element answers rightly about the objects it
contains, the states of these can be looked up, and going back does not throw. -/
structure RepresentationInvariant (s : StateSequence) : Prop where
  represents : ∀ e ∈ s.statesInSequence, Represents s.visibleObjects e
  getStateOfObject : ∀ e ∈ s.statesInSequence, ∀ id, e.containsObjectWithId id = true →
    ∃ o, s.getStateOfObjectAt e id = .ok o
  consume : ∀ m, 1 ≤ m → (s.consumeIntoSubsequence m).2 = .ok ()

/-- What the operations keep. Elements only ever contain more, the runners are numbered
consecutively, and the runners an element sees are among the objects it contains. -/
structure Consistent (s : StateSequence) : Prop where
  represents : ∀ e ∈ s.statesInSequence, Represents s.visibleObjects e
  ordered : s.statesInSequence.Pairwise Precedes
  runnerKeys : s.runnerToObjMap.forward.keys = Finset.range s.runnerToObjMap.size
  runnerObjects : ∀ p i, s.runnerToObjMap.lookup p = some i → i < s.visibleObjects.length
  visibleRunners : ∀ e ∈ s.statesInSequence, ∀ p < e.maxVisibleRunnerId,
    ∃ i, s.runnerToObjMap.lookup p = some i ∧ i ∈ e.visibleObjectIndices

section Sequences

variable {s s' : StateSequence} {e : Element}

@[simp]
theorem mem_statesInSequence : e ∈ s.statesInSequence ↔ e ∈ s.earlier ∨ e = s.representative := by
  simp [statesInSequence]

theorem representative_mem (s : StateSequence) : s.representative ∈ s.statesInSequence :=
  mem_statesInSequence.mpr (.inr rfl)

theorem pairwise_statesInSequence :
    s.statesInSequence.Pairwise Precedes ↔
      s.earlier.Pairwise Precedes ∧ ∀ e ∈ s.earlier, Precedes e s.representative := by
  simp [statesInSequence, List.pairwise_append]

/-- Runners keep their objects. -/
theorem Consistent.lookup_runner_lt (h : s.Consistent) {p : RunnerId} :
    (s.runnerToObjMap.lookup p).isSome = true ↔ p < s.runnerToObjMap.size := by
  rw [InjectiveFunction.lookup, Finmap.lookup_isSome, ← Finmap.mem_keys, h.runnerKeys,
    Finset.mem_range]

theorem Consistent.maxVisibleRunnerId_le (h : s.Consistent) (he : e ∈ s.statesInSequence) :
    e.maxVisibleRunnerId ≤ s.runnerToObjMap.size := by
  by_contra hlt
  obtain ⟨i, hi, -⟩ := h.visibleRunners e he _ (not_le.mp hlt)
  have hsome := h.lookup_runner_lt.mp (Option.isSome_iff_exists.mpr ⟨i, hi⟩)
  exact lt_irrefl _ hsome

/-- A runner which the representative sees has an object which it contains. -/
theorem Consistent.getObjidForRunnerAt (h : s.Consistent) {p : RunnerId} {i : ObjId}
    (hi : s.getObjidForRunnerAt s.representative p = some i) :
    i ∈ s.representative.visibleObjectIndices := by
  simp only [StateSequence.getObjidForRunnerAt, containsRunnerWithIdAt, Bool.and_eq_true,
    decide_eq_true_eq] at hi
  split_ifs at hi with hvisible
  obtain ⟨j, hj, hmem⟩ := h.visibleRunners _ s.representative_mem p hvisible.1
  obtain rfl : i = j := Option.some.inj (hi.symm.trans hj)
  exact hmem

/-- The operations which only change the representative, and let the histories and the
runners grow, keep the invariant when the new representative satisfies it. -/
theorem Consistent.extend (h : s.Consistent)
    (hgrows : Grows s.visibleObjects s'.visibleObjects) (hearlier : s'.earlier = s.earlier)
    (hprecedes : Precedes s.representative s'.representative)
    (hrep : Represents s'.visibleObjects s'.representative)
    (hkeys : s'.runnerToObjMap.forward.keys = Finset.range s'.runnerToObjMap.size)
    (hobjects : ∀ p i, s'.runnerToObjMap.lookup p = some i → i < s'.visibleObjects.length)
    (hmap : ∀ p i, s.runnerToObjMap.lookup p = some i → s'.runnerToObjMap.lookup p = some i)
    (hrunners : ∀ p < s'.representative.maxVisibleRunnerId,
      ∃ i, s'.runnerToObjMap.lookup p = some i ∧ i ∈ s'.representative.visibleObjectIndices) :
    s'.Consistent := by
  obtain ⟨hpairwise, hlast⟩ := pairwise_statesInSequence.mp h.ordered
  refine ⟨fun e he => ?_, ?_, hkeys, hobjects, fun e he => ?_⟩
  · rw [mem_statesInSequence, hearlier] at he
    rcases he with he | rfl
    · exact (h.represents e (mem_statesInSequence.mpr (.inl he))).grows hgrows
    · exact hrep
  · rw [pairwise_statesInSequence, hearlier]
    exact ⟨hpairwise, fun e he => (hlast e he).trans hprecedes⟩
  · rw [mem_statesInSequence, hearlier] at he
    rcases he with he | rfl
    · intro p hp
      obtain ⟨i, hi, hmem⟩ := h.visibleRunners e (mem_statesInSequence.mpr (.inl he)) p hp
      exact ⟨i, hmap p i hi, hmem⟩
    · exact hrunners

/-- Pointing the representative to a state which was pushed for the object `id`, old or
new. -/
theorem Consistent.point (h : s.Consistent) {id : ObjId} {objects : List VisibleObject}
    (hgrows : Grows s.visibleObjects objects) (hid : id ≤ s.representative.count)
    (hvalid : ∃ v, objects[id]? = some v ∧
      (s.representative.visibleObjectIndices.lookup id).elim 0 (· + 1) < v.history.length)
    (hobjects : s.visibleObjects.length ≤ objects.length) :
    Consistent { s with visibleObjects := objects
                        representative := s.representative.pointToNextStateFor id } := by
  have hrep := h.represents _ s.representative_mem
  have hprecedes := precedes_pointToNextStateFor s.representative id
  refine h.extend hgrows rfl hprecedes ⟨?_, fun j n hn => ?_⟩ h.runnerKeys
    (fun p i hi => (h.runnerObjects p i hi).trans_le hobjects) (fun _ _ hi => hi)
    (fun p hp => ?_)
  · exact (contains_iff_pointToNextStateFor hrep).mpr hid
  · by_cases hj : j = id
    · subst hj
      obtain ⟨v, hv, hlt⟩ := hvalid
      rw [Element.pointToNextStateFor_lookup_self] at hn
      exact ⟨v, hv, Option.some.inj hn ▸ hlt⟩
    · rw [Element.pointToNextStateFor_lookup_of_ne hj] at hn
      exact (hrep.grows hgrows).valid j n hn
  · rw [Element.pointToNextStateFor_maxVisibleRunnerId] at hp
    obtain ⟨i, hi, hmem⟩ := h.visibleRunners _ s.representative_mem p hp
    exact ⟨i, hi, hprecedes.mem hmem⟩

/-- An object may be added when the representative contains all the owner has. -/
theorem Consistent.addObject (h : s.Consistent) (o : VisibleObjectState)
    (hfull : s.representative.count = s.visibleObjects.length) :
    (s.addObject o).1.Consistent := by
  refine h.point (grows_append _ _) hfull.ge ⟨VisibleObject.ofState o, by simp, ?_⟩ (by simp)
  have hnone : s.representative.visibleObjectIndices.lookup s.visibleObjects.length = none := by
    rw [Finmap.lookup_eq_none, ← Finmap.mem_keys, (h.represents _ s.representative_mem).keys,
      hfull]
    exact Finset.notMem_range_self
  simp [hnone]

/-- The new object is contained. -/
theorem addObject_contains (s : StateSequence) (o : VisibleObjectState)
    (h : s.Consistent) (hfull : s.representative.count = s.visibleObjects.length) :
    (s.addObject o).1.representative.containsObjectWithId (s.addObject o).2 = true := by
  rw [((h.addObject o hfull).represents _ (representative_mem _)).contains_iff,
    ← Finmap.mem_keys]
  simp only [StateSequence.addObject, Element.pointToNextStateFor_keys]
  exact Finset.mem_insert_self _ _

/-- A state may be added for an object which the owner has, when the representative contains
it or misses it as the first. -/
theorem Consistent.addStateForObj (h : s.Consistent) {id : ObjId} (o : VisibleObjectState)
    (hid : id = objidInvalid ∨ id < s.visibleObjects.length ∧ id ≤ s.representative.count) :
    (s.addStateForObj id o).1.Consistent := by
  unfold StateSequence.addStateForObj
  by_cases hinvalid : id = objidInvalid
  · rw [if_pos hinvalid]
    exact h
  · obtain ⟨hlt, hle⟩ := hid.resolve_left hinvalid
    obtain ⟨v, hv⟩ : ∃ v, s.visibleObjects[id]? = some v := ⟨_, List.getElem?_eq_getElem hlt⟩
    simp only [if_neg hinvalid, hv]
    refine h.point (grows_set hv o) hle ⟨v.pushState o, ?_, ?_⟩ (by simp)
    · simp [hlt]
    · rw [VisibleObject.pushState_history, List.length_append, List.length_singleton]
      cases hn : s.representative.visibleObjectIndices.lookup id with
      | none => exact Nat.succ_pos _
      | some n =>
        obtain ⟨w, hw, hnw⟩ := (h.represents _ s.representative_mem).valid id n hn
        obtain rfl : v = w := Option.some.inj (hv.symm.trans hw)
        exact Nat.succ_lt_succ hnw

/-- A new runner gets the first free id and the new object. -/
theorem Consistent.addRunner_eq (h : s.Consistent) (t : Thread) :
    ∃ m : InjectiveFunction RunnerId ObjId,
      m.forward = s.runnerToObjMap.forward.insert s.runnerToObjMap.size s.visibleObjects.length ∧
      s.addRunner t =
        (⟨m, (s.addObject (.thread t)).1.visibleObjects, s.earlier,
            (s.addObject (.thread t)).1.representative.recordNewRunner⟩,
          .ok s.runnerToObjMap.size) :=
  StateSequence.addRunner_eq h.runnerKeys h.runnerObjects t

/-- A runner may be added when the representative contains all objects and sees all runners
the owner has. -/
theorem Consistent.addRunner (h : s.Consistent) (t : Thread)
    (hfull : s.representative.count = s.visibleObjects.length)
    (hrunners : s.representative.maxVisibleRunnerId = s.runnerToObjMap.size) :
    (s.addRunner t).1.Consistent ∧ (s.addRunner t).2 = .ok s.runnerToObjMap.size := by
  obtain ⟨m, hforward, heq⟩ := h.addRunner_eq t
  have h' := h.addObject (.thread t) hfull
  -- the runner gets the number behind the last one, and the object which has just been added
  have hlookup : ∀ p, m.lookup p = if s.runnerToObjMap.size = p
      then some s.visibleObjects.length else s.runnerToObjMap.lookup p := by
    intro p
    rw [InjectiveFunction.lookup, hforward, lookup_insert]
    rfl
  have hkeys : m.forward.keys = Finset.range (s.runnerToObjMap.size + 1) := by
    rw [hforward, keys_insert, h.runnerKeys, Finset.range_add_one]
  have hsize : m.size = s.runnerToObjMap.size + 1 := by
    rw [InjectiveFunction.size, hkeys, Finset.card_range]
  have hmem : s.visibleObjects.length ∈
      (s.representative.pointToNextStateFor s.visibleObjects.length).visibleObjectIndices := by
    rw [← Finmap.mem_keys, Element.pointToNextStateFor_keys]
    exact Finset.mem_insert_self _ _
  rw [heq]
  refine ⟨h'.extend (Grows.refl _) rfl (Precedes.refl _) ?_ ?_ ?_ ?_ ?_, rfl⟩
  · exact ⟨(h'.represents _ (representative_mem _)).contains_iff,
      (h'.represents _ (representative_mem _)).valid⟩
  · show m.forward.keys = Finset.range m.size
    rw [hsize, hkeys]
  · intro p i hi
    rw [hlookup] at hi
    simp only [StateSequence.addObject, List.length_append, List.length_singleton]
    split_ifs at hi
    · exact Option.some.inj hi ▸ Nat.lt_succ_self _
    · exact (h.runnerObjects p i hi).trans (Nat.lt_succ_self _)
  · intro p i hi
    have hne : s.runnerToObjMap.size ≠ p :=
      (h.lookup_runner_lt.mp (Option.isSome_iff_exists.mpr ⟨i, hi⟩)).ne'
    rw [hlookup, if_neg hne]
    exact hi
  · -- the new runner is the last one the representative sees
    intro p hp
    rw [hlookup]
    by_cases hlast : s.runnerToObjMap.size = p
    · exact ⟨_, if_pos hlast, hmem⟩
    · rw [if_neg hlast]
      refine h'.visibleRunners _ (representative_mem _) p ?_
      have hp' : p < s.representative.maxVisibleRunnerId + 1 := by
        simpa [Element.recordNewRunner, StateSequence.addObject] using hp
      simp only [StateSequence.addObject, Element.pointToNextStateFor_maxVisibleRunnerId]
      rw [hrunners] at hp' ⊢
      exact lt_of_le_of_ne (Nat.lt_succ_iff.mp hp') (Ne.symm hlast)

/-- Appending a snapshot keeps the invariant. -/
theorem Consistent.pushStateSnapshot (h : s.Consistent) : s.pushStateSnapshot.Consistent := by
  have hmem : ∀ e, e ∈ s.pushStateSnapshot.statesInSequence ↔
      e ∈ s.statesInSequence ∨ e = s.snapshot := by
    intro e
    simp [statesInSequence, StateSequence.pushStateSnapshot, or_assoc]
  refine ⟨fun e he => ?_, ?_, h.runnerKeys, h.runnerObjects, fun e he p hp => ?_⟩
  · rcases (hmem e).mp he with he | rfl
    · exact h.represents e he
    · exact represents_snapshot s
  · rw [pairwise_statesInSequence]
    exact ⟨h.ordered, fun e he => (h.represents e he).precedes_snapshot⟩
  · rcases (hmem e).mp he with he | rfl
    · exact h.visibleRunners e he p hp
    · obtain ⟨i, hi⟩ := Option.isSome_iff_exists.mp (h.lookup_runner_lt.mpr hp)
      refine ⟨i, hi, Finmap.mem_iff.mpr ?_⟩
      obtain ⟨v, hv⟩ : ∃ v, s.visibleObjects[i]? = some v :=
        ⟨_, List.getElem?_eq_getElem (h.runnerObjects p i hi)⟩
      exact ⟨v.getLastStateIndex, by simp [snapshot, Element.lastIndices_lookup, hv]⟩

/-- Recording new states of objects keeps the invariant. -/
theorem Consistent.pushNewStates (h : s.Consistent)
    (newStates : List (Sigma fun _ : ObjId => VisibleObjectState)) :
    Consistent { s with
      visibleObjects := StateSequence.pushNewStates s.visibleObjects newStates } := by
  have hgrows := grows_pushNewStates s.visibleObjects newStates
  refine h.extend hgrows rfl (Precedes.refl _) ?_ h.runnerKeys ?_ (fun _ _ hi => hi)
    (h.visibleRunners _ s.representative_mem)
  · exact (h.represents _ s.representative_mem).grows hgrows
  · intro p i hi
    dsimp only
    rw [pushNewStates_length]
    exact h.runnerObjects p i hi

theorem Consistent.record (h : s.Consistent) (d : DiffState) : (s.record d).Consistent :=
  (h.pushNewStates _).pushStateSnapshot

theorem Consistent.follow (h : s.Consistent) (t : Transition) : (s.follow t).1.Consistent := by
  unfold StateSequence.follow
  split
  · exact h
  · exact h.record _
  · exact h

/-- The snapshot sees everything, whatever has been recorded. -/
theorem Consistent.followUnchecked (h : s.Consistent) (t : Transition) :
    (Unchecked.follow s t).1.Consistent := by
  unfold Unchecked.follow
  split
  · exact h
  · split_ifs
    · exact h.record _
    · exact h
  · exact h

/-- Going back to at least one state does not throw, and keeps the invariant. -/
theorem Consistent.consumeIntoSubsequence (h : s.Consistent) {m : ℕ} (hm : 1 ≤ m) :
    (s.consumeIntoSubsequence m).1.Consistent ∧ (s.consumeIntoSubsequence m).2 = .ok () := by
  unfold StateSequence.consumeIntoSubsequence
  by_cases hlong : s.statesInSequence.length ≤ m
  · rw [if_pos hlong]
    exact ⟨h, rfl⟩
  · obtain ⟨n, rfl⟩ : ∃ n, m = n + 1 := ⟨m - 1, (Nat.sub_add_cancel hm).symm⟩
    rw [if_neg hlong]
    have hn : n < s.earlier.length := by
      simp [statesInSequence] at hlong
      exact hlong
    obtain ⟨e, he⟩ : ∃ e, s.earlier[n]? = some e := ⟨_, List.getElem?_eq_getElem hn⟩
    have hmem : e ∈ s.statesInSequence := mem_statesInSequence.mpr (.inl (List.mem_of_getElem? he))
    have hrep := h.represents e hmem
    -- the elements which are left are initial ones, and `e` is the last of them
    have htake : s.earlier.take n ++ [e] = s.earlier.take (n + 1) := by
      rw [List.take_add_one, he]
      rfl
    have hsub : ∀ e' ∈ s.earlier.take n ++ [e], e' ∈ s.statesInSequence := by
      intro e' he'
      rw [htake] at he'
      exact mem_statesInSequence.mpr (.inl (List.mem_of_mem_take he'))
    obtain ⟨hpairwise, -⟩ := pairwise_statesInSequence.mp h.ordered
    have hpairwise' : (s.earlier.take n ++ [e]).Pairwise Precedes := by
      rw [htake]
      exact hpairwise.sublist (List.take_sublist _ _)
    have hprecedes : ∀ e' ∈ s.earlier.take n ++ [e], Precedes e' e := by
      intro e' he'
      rcases List.mem_append.mp he' with he' | he'
      · exact (List.pairwise_append.mp hpairwise').2.2 e' he' e (List.mem_singleton_self e)
      · obtain rfl := List.mem_singleton.mp he'
        exact Precedes.refl _
    simp only [he, sliceObjects_eq hrep.contains_iff]
    refine ⟨⟨fun e' he' => ⟨?_, fun id k hk => ?_⟩, hpairwise', h.runnerKeys, ?_, ?_⟩, trivial⟩
    · exact (h.represents e' (hsub e' he')).contains_iff
    · obtain ⟨k', hk', hle⟩ := hprecedes e' he' id k hk
      obtain ⟨v, hv, hlt⟩ := hrep.valid id k' hk'
      refine ⟨v.slice k', by simp [hv, hk'], ?_⟩
      rw [VisibleObject.slice_history, List.length_take]
      exact lt_min (Nat.lt_succ_of_le hle) (hle.trans_lt hlt)
    · simpa using h.runnerObjects
    · exact fun e' he' => h.visibleRunners e' (hsub e' he')

theorem Consistent.representationInvariant (h : s.Consistent) : s.RepresentationInvariant :=
  ⟨h.represents, fun e he _ hid => (h.represents e he).exists_state hid,
    fun _ hm => (h.consumeIntoSubsequence hm).2⟩

/-- The initial sequences satisfy the invariant, and their representative contains all
objects. -/
theorem consistent_addObjects (objects : List VisibleObjectState) :
    let s := objects.foldl (fun s o => (s.addObject o).1) empty
    s.Consistent ∧ s.visibleObjects.length = objects.length ∧
      s.representative.count = objects.length ∧ s.runnerToObjMap = .empty := by
  induction objects using List.reverseRecOn with
  | nil =>
    refine ⟨⟨fun e he => ?_, ?_, ?_, ?_, fun e he => ?_⟩, rfl, rfl, rfl⟩
    · obtain rfl : e = ⟨∅, 0⟩ := by simpa [statesInSequence, empty] using he
      refine ⟨fun id => ?_, by simp⟩
      simp [Element.containsObjectWithId, Element.count, Finmap.notMem_empty]
    · simp [statesInSequence, empty]
    · simp [empty]
    · simp [empty]
    · obtain rfl : e = ⟨∅, 0⟩ := by simpa [statesInSequence, empty] using he
      simp
  | append_singleton objects o ih =>
    obtain ⟨h, hlength, hcount, hmap⟩ := ih
    have hfull := hcount.trans hlength.symm
    rw [List.foldl_append]
    set s := objects.foldl (fun s o => (s.addObject o).1) empty
    have h' : (s.addObject o).1.Consistent := h.addObject o hfull
    have hlength' : (s.addObject o).1.visibleObjects.length = (objects ++ [o]).length := by
      simp [StateSequence.addObject, hlength]
    refine ⟨h', hlength', ?_, hmap⟩
    have hnot : s.visibleObjects.length ∉ s.representative.visibleObjectIndices.keys := by
      rw [(h.represents _ s.representative_mem).keys, hfull]
      exact Finset.notMem_range_self
    have hcount' : s.representative.visibleObjectIndices.keys.card = objects.length := hcount
    simp [StateSequence.addObject, Element.count, Element.pointToNextStateFor_keys,
      Finset.card_insert_of_notMem hnot, hcount']

theorem consistent_ofDetachedState (d : DetachedState) : (ofDetachedState d).Consistent := by
  obtain ⟨h, hlength, hcount, hmap⟩ := consistent_addObjects d.visibleObjects
  refine h.extend (Grows.refl _) rfl (Precedes.refl _) ?_ d.keys_eq_range ?_ ?_ ?_
  · exact ⟨(h.represents _ (representative_mem _)).contains_iff,
      (h.represents _ (representative_mem _)).valid⟩
  · intro p i hi
    exact (d.lookup_lt hi).trans_eq hlength.symm
  · intro p i hi
    rw [hmap] at hi
    simp at hi
  · intro p hp
    have hmem : p ∈ d.runnerToObjMap.forward := by
      rw [← Finmap.mem_keys, d.keys_eq_range]
      exact Finset.mem_range.mpr hp
    obtain ⟨i, hi⟩ := Finmap.mem_iff.mp hmem
    refine ⟨i, hi, ((h.represents _ (representative_mem _)).contains_iff i).mp ?_⟩
    rw [Element.containsObjectWithId, decide_eq_true_eq]
    exact (d.lookup_lt hi).trans_eq hcount.symm

end Sequences

/-! ### Runs of calls -/

/-- The calls which change a state sequence. -/
inductive Call
  | addObject (o : VisibleObjectState)
  | addRunner (t : Thread)
  | addStateForObj (id : ObjId) (o : VisibleObjectState)
  | addStateForRunner (p : RunnerId) (t : Thread)
  | follow (t : Transition)
  | consumeIntoSubsequence (numStates : ℕ)

/-- What a call returns. -/
inductive Reply
  | nothing
  | objid (id : ObjId)
  | runnerId (p : RunnerId)
  | status (st : Status)

def Call.apply (c : Call) (s : StateSequence) : StateSequence × Except Failure Reply :=
  match c with
  | .addObject o => ((s.addObject o).1, .ok (.objid (s.addObject o).2))
  | .addRunner t => ((s.addRunner t).1, (s.addRunner t).2.map .runnerId)
  | .addStateForObj id o =>
    ((s.addStateForObj id o).1, (s.addStateForObj id o).2.map fun _ => .nothing)
  | .addStateForRunner p t =>
    ((s.addStateForRunner p t).1, (s.addStateForRunner p t).2.map fun _ => .nothing)
  | .follow t => ((Unchecked.follow s t).1, (Unchecked.follow s t).2.map .status)
  | .consumeIntoSubsequence m =>
    ((s.consumeIntoSubsequence m).1, (s.consumeIntoSubsequence m).2.map fun _ => .nothing)

/-- The sequence after the calls. A call which throws leaves the sequence it has produced
so far, and the next call acts on that. -/
def applyAll (s : StateSequence) (calls : List Call) : StateSequence :=
  calls.foldl (fun s c => (c.apply s).1) s

/-- The call has a defined behavior, and the id which it returns is contained in the sequence it
leaves. -/
structure Returned (s : StateSequence) (c : Call) : Prop where
  defined : ∀ what, (c.apply s).2 ≠ .error (.undefinedBehavior what)
  objid : ∀ id, (c.apply s).2 = .ok (.objid id) →
    (c.apply s).1.representative.containsObjectWithId id = true
  runnerId : ∀ p, (c.apply s).2 = .ok (.runnerId p) →
    (c.apply s).1.containsRunnerWithIdAt (c.apply s).1.representative p = true ∧
      ∃ i, (c.apply s).1.getObjidForRunnerAt (c.apply s).1.representative p = some i

/-- The transition does nothing undefined in the last state, and changes objects of the owner. -/
structure Follows (s : StateSequence) (t : Transition) : Prop where
  defined : ∀ what, Unchecked.applyTo t s.toState ≠ .error (.undefinedBehavior what)
  owned : ∀ result, Unchecked.applyTo t s.toState = .ok (result, .exists') →
    Unchecked.Owned s result

/-- The calls which keep the invariant: nothing is added while the representative misses an
object or a runner of the owner, a state is added only for an object of the owner, which
the representative contains or misses as the first, and so are the states of a transition, which is
defined. -/
def Admissible (s : StateSequence) : Call → Prop
  | .addObject _ => s.representative.count = s.visibleObjects.length
  | .addRunner _ => s.representative.count = s.visibleObjects.length ∧
      s.representative.maxVisibleRunnerId = s.runnerToObjMap.size
  | .addStateForObj id _ =>
      id = objidInvalid ∨ id < s.visibleObjects.length ∧ id ≤ s.representative.count
  | .follow t => Follows s t
  | .addStateForRunner _ _ | .consumeIntoSubsequence _ => True

section Calls

variable {s : StateSequence} {c : Call}

theorem Consistent.addStateForRunner (h : s.Consistent) (p : RunnerId) (t : Thread) :
    (s.addStateForRunner p t).1.Consistent := by
  unfold StateSequence.addStateForRunner
  split
  · exact h
  · next i hi =>
    have hrep := h.represents _ s.representative_mem
    have hmem := h.getObjidForRunnerAt hi
    obtain ⟨n, hn⟩ := Finmap.mem_iff.mp hmem
    obtain ⟨v, hv, -⟩ := hrep.valid i n hn
    have hlt : i < s.representative.count := by
      simpa [Element.containsObjectWithId] using (hrep.contains_iff i).mpr hmem
    exact h.addStateForObj _ (.inr ⟨(List.getElem?_eq_some_iff.mp hv).1, hlt.le⟩)

/-- Admissible calls keep the invariant. -/
theorem Consistent.apply (h : s.Consistent) (ha : Admissible s c)
    (hm : ∀ m, c = .consumeIntoSubsequence m → 1 ≤ m) : (c.apply s).1.Consistent := by
  cases c with
  | addObject o => exact h.addObject o ha
  | addRunner t => exact (h.addRunner t ha.1 ha.2).1
  | addStateForObj id o => exact h.addStateForObj o ha
  | addStateForRunner p t => exact h.addStateForRunner p t
  | follow t => exact h.followUnchecked t
  | consumeIntoSubsequence m => exact (h.consumeIntoSubsequence (hm m rfl)).1

/-- Following a transition has undefined behavior when the transition has, or when it changes
objects which the owner does not have. -/
theorem follows_iff {t : Transition} :
    Follows s t ↔ ∀ what, (Unchecked.follow s t).2 ≠ .error (.undefinedBehavior what) := by
  rcases happly : Unchecked.applyTo t s.toState with e | ⟨result, st⟩
  · have hfollow : (Unchecked.follow s t).2 = .error e := by simp only [Unchecked.follow, happly]
    rw [hfollow]
    refine ⟨fun h what heq => ?_, fun h => ⟨fun what heq => ?_, fun result hresult => ?_⟩⟩
    · exact h.defined what (happly.trans (congrArg Except.error (Except.error.inj heq)))
    · exact h what (congrArg Except.error (Except.error.inj (happly.symm.trans heq)))
    · cases happly.symm.trans hresult
  · have hdefined : ∀ what, Unchecked.applyTo t s.toState ≠ .error (.undefinedBehavior what) := by
      intro what heq
      cases happly.symm.trans heq
    cases st with
    | exists' =>
      have hfollow : (Unchecked.follow s t).2 = if Unchecked.Owned s result then .ok .exists'
          else .error (.undefinedBehavior "visible_objects[id]") := by
        simp only [Unchecked.follow, happly]
        split_ifs <;> rfl
      rw [hfollow]
      constructor
      · intro h what heq
        rw [if_pos (h.owned result happly)] at heq
        cases heq
      · refine fun h => ⟨hdefined, fun result' hresult => ?_⟩
        obtain ⟨rfl, -⟩ := Prod.mk.inj (Except.ok.inj (happly.symm.trans hresult))
        by_contra hnot
        exact h _ (if_neg hnot)
    | disabled | undefined =>
      have hfollow : ∀ what, (Unchecked.follow s t).2 ≠ .error (.undefinedBehavior what) := by
        intro what
        simp [Unchecked.follow, happly]
      refine iff_of_true ⟨hdefined, fun result' hresult => ?_⟩ hfollow
      cases happly.symm.trans hresult

/-- A call which returns no id has nothing to show but that it is defined. -/
private theorem returned_of_reply {α : Type} {r : Except Failure α} {f : α → Reply}
    (heq : (c.apply s).2 = r.map f) (hobjid : ∀ a id, f a ≠ .objid id)
    (hrunner : ∀ a p, f a ≠ .runnerId p) (hdefined : ∀ what, r ≠ .error (.undefinedBehavior what)) :
    Returned s c := by
  refine ⟨fun what herror => ?_, fun id hid => ?_, fun p hp => ?_⟩
  · rw [heq] at herror
    cases r with
    | error e => exact hdefined what (congrArg Except.error (Except.error.inj herror))
    | ok a => cases herror
  · rw [heq] at hid
    cases r with
    | error e => simp [Except.map] at hid
    | ok a => exact absurd (Except.ok.inj hid) (hobjid a id)
  · rw [heq] at hp
    cases r with
    | error e => simp [Except.map] at hp
    | ok a => exact absurd (Except.ok.inj hp) (hrunner a p)

theorem addStateForObj_defined (s : StateSequence) (id : ObjId) (o : VisibleObjectState)
    (what : String) : (s.addStateForObj id o).2 ≠ .error (.undefinedBehavior what) := by
  unfold StateSequence.addStateForObj
  split_ifs with hinvalid
  · simp
  · dsimp only
    split <;> simp

/-- The ids which admissible calls return are contained. -/
theorem Consistent.returned (h : s.Consistent) (ha : Admissible s c)
    (hm : ∀ m, c = .consumeIntoSubsequence m → 1 ≤ m) : Returned s c := by
  cases c with
  | addObject o =>
    refine ⟨fun what herror => by simp [Call.apply] at herror, fun id hid => ?_,
      fun p hp => by simp [Call.apply] at hp⟩
    obtain rfl : (s.addObject o).2 = id := by simpa [Call.apply] using hid
    exact addObject_contains s o h ha
  | addRunner t =>
    obtain ⟨h', hreply⟩ := h.addRunner t ha.1 ha.2
    refine ⟨fun what herror => by simp [Call.apply, hreply, Except.map] at herror,
      fun id hid => by simp [Call.apply, hreply, Except.map] at hid, fun p hp => ?_⟩
    obtain rfl : s.runnerToObjMap.size = p := by simpa [Call.apply, hreply, Except.map] using hp
    obtain ⟨m, -, heq⟩ := h.addRunner_eq t
    have hvisible : s.runnerToObjMap.size < (s.addRunner t).1.representative.maxVisibleRunnerId := by
      rw [heq]
      simp [Element.recordNewRunner, StateSequence.addObject, ha.2]
    obtain ⟨i, hi, -⟩ := h'.visibleRunners _ (representative_mem _) _ hvisible
    have hcontains : (s.addRunner t).1.containsRunnerWithIdAt
        (s.addRunner t).1.representative s.runnerToObjMap.size = true := by
      simp [containsRunnerWithIdAt, hvisible, hi]
    exact ⟨hcontains, i, by simp only [Call.apply, StateSequence.getObjidForRunnerAt,
      hcontains, if_true, hi]⟩
  | addStateForObj id o =>
    exact returned_of_reply rfl (by simp) (by simp) (addStateForObj_defined s id o)
  | addStateForRunner p t =>
    refine returned_of_reply rfl (by simp) (by simp) fun what => ?_
    unfold StateSequence.addStateForRunner
    split
    · simp
    · exact addStateForObj_defined s _ _ what
  | follow t => exact returned_of_reply rfl (by simp) (by simp) (follows_iff.mp ha)
  | consumeIntoSubsequence m =>
    refine returned_of_reply rfl (by simp) (by simp) fun what heq => ?_
    cases (h.consumeIntoSubsequence (hm m rfl)).2.symm.trans heq

/-- Only admissible calls keep the invariant and return contained ids. -/
theorem Consistent.admissible (h : s.Consistent)
    (hinv : (c.apply s).1.RepresentationInvariant) (hret : Returned s c) : Admissible s c := by
  have hrep := h.represents _ s.representative_mem
  have hrep' := hinv.represents _ (representative_mem _)
  cases c with
  | addObject o =>
    exact le_antisymm hrep.count_le
      ((contains_iff_pointToNextStateFor hrep).mp hrep'.contains_iff)
  | addRunner t =>
    obtain ⟨m, -, heq⟩ := h.addRunner_eq t
    have hreturned := (hret.runnerId s.runnerToObjMap.size (by simp [Call.apply, heq, Except.map])).1
    simp only [Call.apply, heq] at hrep' hreturned
    constructor
    · exact le_antisymm hrep.count_le
        ((contains_iff_pointToNextStateFor hrep).mp hrep'.contains_iff)
    · refine le_antisymm (h.maxVisibleRunnerId_le s.representative_mem) ?_
      simp only [containsRunnerWithIdAt, Bool.and_eq_true, decide_eq_true_eq] at hreturned
      simpa [Element.recordNewRunner, StateSequence.addObject, Nat.lt_succ_iff] using hreturned.1
  | addStateForObj id o =>
    by_cases hinvalid : id = objidInvalid
    · exact .inl hinvalid
    · right
      simp only [Call.apply, StateSequence.addStateForObj, if_neg hinvalid] at hrep'
      cases hv : s.visibleObjects[id]? with
      | none =>
        -- the entry is made before the object is missed
        rw [hv] at hrep'
        obtain ⟨v, hv', -⟩ := hrep'.valid id _ Element.pointToNextStateFor_lookup_self
        exact absurd (hv.symm.trans hv') (by simp)
      | some v =>
        rw [hv] at hrep'
        exact ⟨(List.getElem?_eq_some_iff.mp hv).1,
          (contains_iff_pointToNextStateFor hrep).mp hrep'.contains_iff⟩
  | addStateForRunner p t => trivial
  | follow t =>
    refine follows_iff.mpr fun what heq => hret.defined what ?_
    simp only [Call.apply, heq, Except.map]
  | consumeIntoSubsequence m => trivial

theorem applyAll_concat (s : StateSequence) (calls : List Call) (c : Call) :
    applyAll s (calls ++ [c]) = (c.apply (applyAll s calls)).1 := by
  simp [applyAll, List.foldl_append]

/-- A run of admissible calls keeps the invariant. -/
theorem Consistent.applyAll (h : s.Consistent) {calls : List Call}
    (ha : ∀ pre c, pre ++ [c] <+: calls → Admissible (applyAll s pre) c)
    (hm : ∀ m, .consumeIntoSubsequence m ∈ calls → 1 ≤ m) : (applyAll s calls).Consistent := by
  induction calls using List.reverseRecOn with
  | nil => exact h
  | append_singleton calls c ih =>
    obtain ⟨hbefore, hlast⟩ := forall_prefix_concat.mp ha
    have hcalls := ih hbefore fun m hmem => hm m (List.mem_append_left _ hmem)
    rw [applyAll_concat]
    exact hcalls.apply hlast fun m hc => hm m (by simp [hc])

/-- **When the representation invariant holds.** Start from any detached state and apply any
calls, which go back to at least one state. The invariant holds after every call, and every
call is defined and returns contained ids only, exactly when every call is admissible where it is
made. -/
theorem representationInvariant_iff (d : DetachedState) (calls : List Call)
    (hm : ∀ m, .consumeIntoSubsequence m ∈ calls → 1 ≤ m) :
    ((∀ pre, pre <+: calls →
        (StateSequence.applyAll (ofDetachedState d) pre).RepresentationInvariant) ∧
      (∀ pre c, pre ++ [c] <+: calls →
        Returned (StateSequence.applyAll (ofDetachedState d) pre) c)) ↔
      ∀ pre c, pre ++ [c] <+: calls →
        Admissible (StateSequence.applyAll (ofDetachedState d) pre) c := by
  have h := consistent_ofDetachedState d
  constructor
  · rintro ⟨hinv, hret⟩ pre c hpre
    induction hn : pre.length using Nat.strong_induction_on generalizing pre c with
    | _ n ih =>
      have hconsistent : (StateSequence.applyAll (ofDetachedState d) pre).Consistent := by
        refine h.applyAll (fun pre' c' hpre' => ?_) fun m hmem => ?_
        · refine ih pre'.length ?_ pre' c' ((hpre'.trans (List.prefix_append _ _)).trans hpre) rfl
          have hle := hpre'.length_le
          rw [List.length_append, List.length_singleton, hn] at hle
          exact hle
        · exact hm m (hpre.subset (List.mem_append_left _ hmem))
      have hnext := hinv _ hpre
      rw [applyAll_concat] at hnext
      exact hconsistent.admissible hnext (hret pre c hpre)
  · intro ha
    have hconsistent : ∀ pre, pre <+: calls →
        (StateSequence.applyAll (ofDetachedState d) pre).Consistent := fun pre hpre =>
      h.applyAll (fun pre' c' hpre' => ha pre' c' (hpre'.trans hpre))
        fun m hmem => hm m (hpre.subset hmem)
    refine ⟨fun pre hpre => (hconsistent pre hpre).representationInvariant, fun pre c hpre => ?_⟩
    refine (hconsistent pre ((List.prefix_append _ _).trans hpre)).returned (ha pre c hpre) ?_
    rintro m rfl
    exact hm m (hpre.subset (List.mem_append_right _ (List.mem_singleton_self _)))

end Calls

/-- The main thread starts, an object is added, and the sequence goes back to its beginning. -/
private def leftover : List Call :=
  [.follow ⟨0, .threadStart⟩, .addObject (.semaphore {}), .consumeIntoSubsequence 1]

/-- An object added after going back, while the owner still has one of the abandoned states,
is not contained in the sequence. -/
theorem addObject_not_contained :
    ¬ ∀ (d : DetachedState) (calls : List Call),
      (∀ m, .consumeIntoSubsequence m ∈ calls → 1 ≤ m) →
      (∀ pre, pre <+: calls → (applyAll (ofDetachedState d) pre).RepresentationInvariant) ∧
        ∀ pre c, pre ++ [c] <+: calls → Returned (applyAll (ofDetachedState d) pre) c := by
  intro h
  have hm : ∀ m, .consumeIntoSubsequence m ∈ leftover ++ [.addObject (.semaphore {})] →
      1 ≤ m := by
    intro m hmem
    simp only [leftover, List.cons_append, List.nil_append, List.mem_cons, reduceCtorEq,
      List.not_mem_nil, or_false, false_or, Call.consumeIntoSubsequence.injEq] at hmem
    exact hmem.ge
  have hreturned := (h .atMain (leftover ++ [.addObject (.semaphore {})]) hm).2 leftover
    (.addObject (.semaphore {})) List.prefix_rfl
  exact absurd (hreturned.objid 2 rfl) (by decide)

/-- When a transition has set the leftover up, the next object may be added. -/
theorem representationInvariant_addObject :
    (applyAll (ofDetachedState .atMain) (leftover ++
      [.follow ⟨0, .semInit 1 3⟩, .addObject (.semaphore {})])).RepresentationInvariant := by
  have hfollows : ∀ {s : StateSequence} {t : Transition},
      (Unchecked.follow s t).2 = .ok .exists' → Follows s t := by
    intro s t hfollow
    refine follows_iff.mpr fun what heq => ?_
    cases hfollow.symm.trans heq
  have ha : ∀ pre c, pre ++ [c] <+: leftover ++ [.follow ⟨0, .semInit 1 3⟩] ++
      [.addObject (.semaphore {})] → Admissible (applyAll (ofDetachedState .atMain) pre) c := by
    refine forall_prefix_concat.mpr ⟨forall_prefix_concat.mpr ⟨?_, hfollows rfl⟩, rfl⟩
    show ∀ pre c, pre ++ [c] <+: [] ++ [_] ++ [_] ++ [_] → _
    refine forall_prefix_concat.mpr ⟨forall_prefix_concat.mpr ⟨forall_prefix_concat.mpr
      ⟨fun pre c hpre => ?_, hfollows rfl⟩, rfl⟩, trivial⟩
    simp at hpre
  refine ((representationInvariant_iff .atMain _ fun m hmem => ?_).mpr ha).1 _ List.prefix_rfl
  simp only [leftover, List.cons_append, List.nil_append, List.mem_cons, reduceCtorEq,
    List.not_mem_nil, or_false, false_or, Call.consumeIntoSubsequence.injEq] at hmem
  exact hmem.ge

end StateSequence

end McMini
