import McMini.Model.Extension
import McMini.Properties.Exploration

/-!
# What going back leaves

A state sequence which has gone back still owns the objects and the runners of the states it has
dropped, and whatever is added next gets ids beyond theirs. An element may then miss objects with
smaller ids than some which it contains, and the representation invariant is lost. What every
operation keeps is weaker. A *layer* is an element together with the numbers of objects and of
runners there were when it was made:

* up to these numbers the element sees everything;
* what has been added to it since, it sees in its first state.

Together with the order of the layers (`Layered`) this is enough for going back: the states of
the layers which remain are those they were (`Layered.stateAt_consume`), whatever has been
discovered in the meantime.
-/

namespace McMini

open Foundation

theorem getElem?_of_prefix {α : Type} {l l' : List α} (h : l <+: l') {i : ℕ} {a : α}
    (hi : l[i]? = some a) : l'[i]? = some a := by
  obtain ⟨rest, rfl⟩ := h
  rw [List.getElem?_append_left (List.getElem?_eq_some_iff.mp hi).1, hi]

/-- An element, and how many objects and runners there were when it was made. -/
structure Layer where
  element : Element
  objects : ℕ
  runners : ℕ

/-- What the layer says about the element is right. -/
structure Layer.Valid (s : StateSequence) (l : Layer) : Prop where
  objects_le : l.objects ≤ s.visibleObjects.length
  runners_le : l.runners ≤ l.element.maxVisibleRunnerId
  visible_le : l.element.maxVisibleRunnerId ≤ s.runnerToObjMap.size
  old : ∀ id < l.objects, ∃ v n, s.visibleObjects[id]? = some v ∧
    l.element.visibleObjectIndices.lookup id = some n ∧ n < v.history.length
  added : ∀ id n, l.objects ≤ id → l.element.visibleObjectIndices.lookup id = some n →
    n = 0 ∧ id < s.visibleObjects.length
  owned : ∀ p i, s.runnerToObjMap.lookup p = some i → (p < l.runners ↔ i < l.objects)

/-- The element of the second layer was made when that of the first had been left. -/
structure Layer.Below (l l' : Layer) : Prop where
  objects_le : l.objects ≤ l'.objects
  objects : ∀ id n, l.element.visibleObjectIndices.lookup id = some n → id < l'.objects
  runners : l.element.maxVisibleRunnerId ≤ l'.runners
  indices : ∀ id n n', l.element.visibleObjectIndices.lookup id = some n →
    l'.element.visibleObjectIndices.lookup id = some n' → n ≤ n'

/-- The numbers of objects and runners there were when the element was made. -/
def Layer.marks (l : Layer) : ℕ × ℕ := (l.objects, l.runners)

namespace Layer.Valid

variable {s s' : StateSequence} {l : Layer} {id : ObjId} {n : ℕ}

/-- Whatever an element sees is there, in the state it sees. -/
theorem lookup_valid (h : l.Valid s) (hn : l.element.visibleObjectIndices.lookup id = some n) :
    ∃ v, s.visibleObjects[id]? = some v ∧ n < v.history.length := by
  by_cases hid : id < l.objects
  · obtain ⟨v, m, hv, hm, hlt⟩ := h.old id hid
    obtain rfl : m = n := Option.some.inj (hm.symm.trans hn)
    exact ⟨v, hv, hlt⟩
  · obtain ⟨rfl, hlt⟩ := h.added id n (not_lt.mp hid) hn
    exact ⟨_, List.getElem?_eq_getElem hlt, VisibleObject.length_pos⟩

theorem lookup_lt (h : l.Valid s) (hn : l.element.visibleObjectIndices.lookup id = some n) :
    id < s.visibleObjects.length := by
  obtain ⟨v, hv, -⟩ := h.lookup_valid hn
  exact (List.getElem?_eq_some_iff.mp hv).1

theorem lookup_length (h : l.Valid s) :
    l.element.visibleObjectIndices.lookup s.visibleObjects.length = none := by
  cases hn : l.element.visibleObjectIndices.lookup s.visibleObjects.length with
  | none => rfl
  | some n => exact absurd (h.lookup_lt hn) (lt_irrefl _)

/-- A layer stays valid when states, objects and runners are added behind it. -/
theorem grow (h : l.Valid s)
    (hobjects : StateSequence.Grows s.visibleObjects s'.visibleObjects)
    (hlength : s.visibleObjects.length ≤ s'.visibleObjects.length)
    (hsize : s.runnerToObjMap.size ≤ s'.runnerToObjMap.size)
    (hmap : ∀ p i, s'.runnerToObjMap.lookup p = some i →
      s.runnerToObjMap.lookup p = some i ∨ l.runners ≤ p ∧ l.objects ≤ i) : l.Valid s' where
  objects_le := h.objects_le.trans hlength
  runners_le := h.runners_le
  visible_le := h.visible_le.trans hsize
  old id hid := by
    obtain ⟨v, n, hv, hn, hlt⟩ := h.old id hid
    obtain ⟨v', hv', hle⟩ := hobjects id v hv
    exact ⟨v', n, hv', hn, hlt.trans_le hle⟩
  added id n hid hn := by
    obtain ⟨hzero, hlt⟩ := h.added id n hid hn
    exact ⟨hzero, hlt.trans_le hlength⟩
  owned p i hi := by
    rcases hmap p i hi with hold | ⟨hp, hi'⟩
    · exact h.owned p i hold
    · exact iff_of_false (not_lt.mpr hp) (not_lt.mpr hi')

end Layer.Valid

/-- Where the history of the object is cut when a sequence goes back to the element. -/
def Element.cut (e : Element) (id : ObjId) : ℕ :=
  if e.containsObjectWithId id then (e.visibleObjectIndices.lookup id).getD 0 else 0

theorem Element.cut_le {e : Element} {id : ObjId} {n : ℕ}
    (h : e.visibleObjectIndices.lookup id = some n) : e.cut id ≤ n := by
  rw [cut, h]
  split_ifs
  · exact le_rfl
  · exact Nat.zero_le n

namespace StateSequence

/-- The layers of a sequence, of which the first `r₀` runners have been there from the start. The
representative sees objects in their last states, and what it does not see has one state only. -/
structure Layered (s : StateSequence) (r₀ : ℕ) (layers : List Layer) : Prop where
  elements : layers.map Layer.element = s.statesInSequence
  valid : ∀ l ∈ layers, l.Valid s
  below : layers.Pairwise Layer.Below
  runnerKeys : s.runnerToObjMap.forward.keys = Finset.range s.runnerToObjMap.size
  runnerObjects : ∀ p i, s.runnerToObjMap.lookup p = some i → i < s.visibleObjects.length
  initial : ∀ l ∈ layers, r₀ ≤ l.runners
  discovered : ∀ p i, r₀ ≤ p → s.runnerToObjMap.lookup p = some i →
    ∃ v, s.visibleObjects[i]? = some v ∧ v.history[0]? = some (.thread ⟨.embryo⟩)
  current : ∀ id n, s.representative.visibleObjectIndices.lookup id = some n →
    ∃ v, s.visibleObjects[id]? = some v ∧ n = v.getLastStateIndex
  unseen : ∀ id v, s.visibleObjects[id]? = some v →
    s.representative.visibleObjectIndices.lookup id = none → v.history.length = 1

/-! ### States of elements -/

section StateAt

variable {s s' : StateSequence} {e e' : Element} {l : Layer} {layers init : List Layer} {r₀ : ℕ}
  {p : RunnerId} {th : Thread}

theorem stateAt_objectState {id : ObjId} {o : VisibleObjectState} :
    (s.stateAt e).objectState id = some o ↔
      ∃ v n, s.visibleObjects[id]? = some v ∧ e.visibleObjectIndices.lookup id = some n ∧
        v.history[n]? = some o := by
  rw [← getStateOfObjectAt_eq_ok]
  show (s.getStateOfObjectAt e id).toOption = some o ↔ _
  cases s.getStateOfObjectAt e id <;> simp [Except.toOption]

theorem stateAt_objidForRunner {i : ObjId} :
    (s.stateAt e).objidForRunner p = some i ↔
      p < e.maxVisibleRunnerId ∧ s.runnerToObjMap.lookup p = some i := by
  show s.getObjidForRunnerAt e p = some i ↔ _
  unfold getObjidForRunnerAt containsRunnerWithIdAt
  cases s.runnerToObjMap.lookup p <;> simp

/-- An element which sees what another sees, in the same states. -/
theorem stateAt_extendedBy
    (hentries : ∀ id n, e.visibleObjectIndices.lookup id = some n →
      e'.visibleObjectIndices.lookup id = some n)
    (hstates : ∀ id v n o, s.visibleObjects[id]? = some v →
      e.visibleObjectIndices.lookup id = some n → v.history[n]? = some o →
      ∃ v', s'.visibleObjects[id]? = some v' ∧ v'.history[n]? = some o)
    (hrunners : ∀ p i, p < e.maxVisibleRunnerId → s.runnerToObjMap.lookup p = some i →
      p < e'.maxVisibleRunnerId ∧ s'.runnerToObjMap.lookup p = some i) :
    (s.stateAt e).ExtendedBy (s'.stateAt e') := by
  refine ⟨fun id o ho => ?_, fun p i hi => ?_⟩
  · obtain ⟨v, n, hv, hn, hstate⟩ := stateAt_objectState.mp ho
    obtain ⟨v', hv', hstate'⟩ := hstates id v n o hv hn hstate
    exact stateAt_objectState.mpr ⟨v', n, hv', hentries id n hn, hstate'⟩
  · obtain ⟨hp, hmap⟩ := stateAt_objidForRunner.mp hi
    exact stateAt_objidForRunner.mpr (hrunners p i hp hmap)

/-- A runner which has come to be known after the element was made is an embryo there. -/
theorem Layered.embryo_of_le (h : s.Layered r₀ layers) (hl : l ∈ layers) (hp : l.runners ≤ p)
    (hth : (s.stateAt l.element).HasThread p th) : th = ⟨.embryo⟩ := by
  obtain ⟨i, hi, ho⟩ := hth
  obtain ⟨-, hmap⟩ := stateAt_objidForRunner.mp hi
  obtain ⟨v, n, hv, hn, hstate⟩ := stateAt_objectState.mp ho
  obtain ⟨v', hv', hfirst⟩ := h.discovered p i ((h.initial l hl).trans hp) hmap
  obtain rfl : v = v' := Option.some.inj (hv.symm.trans hv')
  have hvalid := h.valid l hl
  have hout : l.objects ≤ i := by
    by_contra hlt
    exact absurd ((hvalid.owned p i hmap).mpr (not_le.mp hlt)) (not_lt.mpr hp)
  obtain ⟨rfl, -⟩ := hvalid.added i n hout hn
  rw [hfirst] at hstate
  exact (VisibleObjectState.thread.inj (Option.some.inj hstate)).symm

/-- The runners there were when a layer was made have an object in its state. -/
theorem Layered.exists_object (h : s.Layered r₀ layers) (hl : l ∈ layers) (hp : p < l.runners) :
    ∃ i o, (s.stateAt l.element).objidForRunner p = some i ∧
      (s.stateAt l.element).objectState i = some o := by
  have hvalid := h.valid l hl
  have hmem : p ∈ s.runnerToObjMap.forward.keys := by
    rw [h.runnerKeys, Finset.mem_range]
    exact hp.trans_le (hvalid.runners_le.trans hvalid.visible_le)
  obtain ⟨i, hi⟩ := Finmap.mem_iff.mp (Finmap.mem_keys.mp hmem)
  obtain ⟨v, n, hv, hn, hlt⟩ := hvalid.old i ((hvalid.owned p i hi).mp hp)
  exact ⟨i, _, stateAt_objidForRunner.mpr ⟨hp.trans_le hvalid.runners_le, hi⟩,
    stateAt_objectState.mpr ⟨v, n, hv, hn, List.getElem?_eq_getElem hlt⟩⟩

/-- A state which knows more than a layer has the same threads for the runners there were. -/
theorem Layered.hasThread_of_lt (h : s.Layered r₀ layers) (hl : l ∈ layers) (hp : p < l.runners)
    {u : State} (hext : (s.stateAt l.element).ExtendedBy u) (hth : u.HasThread p th) :
    (s.stateAt l.element).HasThread p th := by
  obtain ⟨i, o, hi, ho⟩ := h.exists_object hl hp
  obtain ⟨j, hj, hthread⟩ := hth
  obtain rfl : i = j := Option.some.inj ((hext.runners p i hi).symm.trans hj)
  obtain rfl : o = .thread th := Option.some.inj ((hext.objects i o ho).symm.trans hthread)
  exact ⟨i, hi, ho⟩

end StateAt

/-- The state after `i` transitions. -/
def stateAtDepth (s : StateSequence) (i : ℕ) : Option State := (s.statesInSequence[i]?).map s.stateAt

/-- At each depth of the first sequence, the second one knows what the first does. -/
def Enriched (s s' : StateSequence) : Prop :=
  ∀ i u, s.stateAtDepth i = some u → ∃ u', s'.stateAtDepth i = some u' ∧ u.ExtendedBy u'

section Operations

variable {s s' s'' : StateSequence} {l : Layer} {layers : List Layer} {r₀ : ℕ} {id : ObjId} {n : ℕ}

theorem Enriched.refl (s : StateSequence) : s.Enriched s := fun _ u hu => ⟨u, hu, .refl u⟩

theorem Enriched.trans (h : s.Enriched s') (h' : s'.Enriched s'') : s.Enriched s'' := by
  intro i u hu
  obtain ⟨u', hu', hext⟩ := h i u hu
  obtain ⟨u'', hu'', hext'⟩ := h' i u' hu'
  exact ⟨u'', hu'', hext.trans hext'⟩

theorem getElem?_statesInSequence {i : ℕ} {e : Element} :
    s.statesInSequence[i]? = some e ↔
      s.earlier[i]? = some e ∨ i = s.earlier.length ∧ e = s.representative := by
  rw [statesInSequence]
  rcases lt_trichotomy i s.earlier.length with hi | rfl | hi
  · rw [List.getElem?_append_left hi]
    simp [hi.ne]
  · simp [eq_comm]
  · rw [List.getElem?_eq_none (by simpa using Nat.succ_le_of_lt hi), List.getElem?_eq_none hi.le]
    simp [hi.ne']

theorem stateAtDepth_length : s.stateAtDepth s.earlier.length = some s.toState := by
  rw [stateAtDepth, getElem?_statesInSequence.mpr (.inr ⟨rfl, rfl⟩)]
  rfl

theorem stateAtDepth_eq_some {i : ℕ} {u : State} : s.stateAtDepth i = some u ↔
    (∃ e, s.earlier[i]? = some e ∧ s.stateAt e = u) ∨ i = s.earlier.length ∧ s.toState = u := by
  rw [stateAtDepth, Option.map_eq_some_iff]
  constructor
  · rintro ⟨e, he, rfl⟩
    exact (getElem?_statesInSequence.mp he).imp (fun he => ⟨e, he, rfl⟩) fun ⟨hi, he⟩ => ⟨hi, he ▸ rfl⟩
  · rintro (⟨e, he, rfl⟩ | ⟨hi, rfl⟩)
    · exact ⟨e, getElem?_statesInSequence.mpr (.inl he), rfl⟩
    · exact ⟨_, getElem?_statesInSequence.mpr (.inr ⟨hi, rfl⟩), rfl⟩

/-- When the earlier elements are kept, and what they and the representative know. -/
theorem enriched_of_earlier (hearlier : s'.earlier = s.earlier)
    (hkept : ∀ e ∈ s.earlier, (s.stateAt e).ExtendedBy (s'.stateAt e))
    (hrepresentative : s.toState.ExtendedBy s'.toState) : s.Enriched s' := by
  intro i u hu
  rcases stateAtDepth_eq_some.mp hu with ⟨e, he, rfl⟩ | ⟨rfl, rfl⟩
  · exact ⟨_, stateAtDepth_eq_some.mpr (.inl ⟨e, hearlier ▸ he, rfl⟩),
      hkept e (List.mem_of_getElem? he)⟩
  · exact ⟨_, hearlier ▸ stateAtDepth_length, hrepresentative⟩

theorem Layered.split (h : s.Layered r₀ layers) : ∃ init l, layers = init ++ [l] ∧
    init.map Layer.element = s.earlier ∧ l.element = s.representative := by
  have helements := h.elements
  rcases List.eq_nil_or_concat' layers with rfl | ⟨init, l, rfl⟩
  · simp [statesInSequence] at helements
  · rw [List.map_append, statesInSequence] at helements
    obtain ⟨hinit, hl⟩ := List.append_inj' helements rfl
    exact ⟨init, l, rfl, hinit, List.singleton_inj.mp hl⟩

theorem Layered.marks_le (h : s.Layered r₀ layers) {marks : ℕ × ℕ}
    (hmarks : marks ∈ layers.map Layer.marks) :
    marks.1 ≤ s.visibleObjects.length ∧ marks.2 ≤ s.runnerToObjMap.size := by
  obtain ⟨l, hl, rfl⟩ := List.mem_map.mp hmarks
  have hvalid := h.valid l hl
  exact ⟨hvalid.objects_le, hvalid.runners_le.trans hvalid.visible_le⟩

/-- A settled sequence of one state is one layer, of which all is known from the start. -/
theorem Settled.layered (h : s.Settled) (hearlier : s.earlier = []) :
    s.Layered s.runnerToObjMap.size
      [⟨s.representative, s.visibleObjects.length, s.runnerToObjMap.size⟩] := by
  have hknown : ∀ {p i}, s.runnerToObjMap.lookup p = some i → p < s.runnerToObjMap.size := by
    intro p i hi
    have hp := Finmap.mem_keys.mpr (Finmap.mem_of_lookup_eq_some hi)
    rwa [h.consistent.runnerKeys, Finset.mem_range] at hp
  have hcurrent : ∀ {id n}, s.representative.visibleObjectIndices.lookup id = some n →
      ∃ v, s.visibleObjects[id]? = some v ∧ v.getLastStateIndex = n := fun hn =>
    Option.map_eq_some_iff.mp ((h.current.indices _).symm.trans hn)
  refine ⟨by rw [statesInSequence, hearlier]; rfl, fun l hl => ?_, List.pairwise_singleton _ _,
    h.consistent.runnerKeys, h.consistent.runnerObjects, fun l hl => ?_, fun p i hp hi => ?_,
    fun id n hn => ?_, fun id v hv hnone => ?_⟩
  · obtain rfl := List.mem_singleton.mp hl
    refine ⟨le_rfl, h.current.runners.ge, h.current.runners.le, fun id hid => ?_,
      fun id n hid hn => ?_, fun p i hi => iff_of_true (hknown hi) (h.consistent.runnerObjects p i hi)⟩
    · obtain ⟨v, hv⟩ : ∃ v, s.visibleObjects[id]? = some v := ⟨_, List.getElem?_eq_getElem hid⟩
      exact ⟨v, v.getLastStateIndex, hv, by rw [h.current.indices, hv, Option.map_some],
        v.getLastStateIndex_lt⟩
    · obtain ⟨v, hv, -⟩ := hcurrent hn
      exact absurd (List.getElem?_eq_some_iff.mp hv).1 (not_lt.mpr hid)
  · rw [List.mem_singleton.mp hl]
  · exact absurd (hknown hi) (not_lt.mpr hp)
  · obtain ⟨v, hv, hlast⟩ := hcurrent hn
    exact ⟨v, hv, hlast.symm⟩
  · rw [h.current.indices, hv] at hnone
    cases hnone

/-! ### Adding objects and runners -/

/-- An added object is seen by the representative, in its first state. -/
theorem Layered.addObject (h : s.Layered r₀ layers) (o : VisibleObjectState) :
    ∃ layers', (s.addObject o).1.Layered r₀ layers' ∧
      layers'.map Layer.marks = layers.map Layer.marks := by
  obtain ⟨init, l, rfl, hinit, hl⟩ := h.split
  have hvalid := h.valid l (List.mem_append_right _ (List.mem_singleton_self l))
  have hgrows : Grows s.visibleObjects (s.addObject o).1.visibleObjects := grows_append _ _
  have hlength : (s.addObject o).1.visibleObjects.length = s.visibleObjects.length + 1 :=
    List.length_append
  -- the last state sees the object at once; no state sees its id before
  have hself : (l.element.pointToNextStateFor s.visibleObjects.length).visibleObjectIndices.lookup
      s.visibleObjects.length = some 0 := by
    rw [Element.pointToNextStateFor_lookup_self, hvalid.lookup_length]
    rfl
  have hkept : ∀ l' ∈ init ++ [l], l'.Valid (s.addObject o).1 := fun l' hl' =>
    (h.valid l' hl').grow hgrows (by omega) le_rfl fun _ _ hi => .inl hi
  obtain ⟨hpairs, -, hlast⟩ := List.pairwise_append.mp h.below
  refine ⟨init ++ [{ l with element := l.element.pointToNextStateFor s.visibleObjects.length }],
    ⟨?_, ?_, ?_, h.runnerKeys, ?_, ?_, ?_, ?_, ?_⟩, by simp [Layer.marks]⟩
  · rw [List.map_append, hinit]
    show s.earlier ++ [l.element.pointToNextStateFor s.visibleObjects.length] =
      s.earlier ++ [s.representative.pointToNextStateFor s.visibleObjects.length]
    rw [hl]
  · intro l' hl'
    rcases List.mem_append.mp hl' with hmem | hmem
    · exact hkept l' (List.mem_append_left _ hmem)
    · obtain rfl := List.mem_singleton.mp hmem
      have hgrown := hkept l (List.mem_append_right _ (List.mem_singleton_self l))
      refine ⟨hgrown.objects_le, ?_, ?_, fun id hid => ?_, fun id n hid hn => ?_, hgrown.owned⟩
      · simpa using hgrown.runners_le
      · simpa using hgrown.visible_le
      · have hne : id ≠ s.visibleObjects.length := (hid.trans_le hvalid.objects_le).ne
        obtain ⟨v, n, hv, hn, hlt⟩ := hgrown.old id hid
        exact ⟨v, n, hv, (Element.pointToNextStateFor_lookup_of_ne hne).trans hn, hlt⟩
      · by_cases hne : id = s.visibleObjects.length
        · subst hne
          exact ⟨Option.some.inj (hn.symm.trans hself), by omega⟩
        · exact hgrown.added id n hid ((Element.pointToNextStateFor_lookup_of_ne hne).symm.trans hn)
  -- the object is behind all which the earlier states see, so they are still below
  · refine List.pairwise_append.mpr ⟨hpairs, List.pairwise_singleton _ _, fun a ha b hb => ?_⟩
    obtain rfl := List.mem_singleton.mp hb
    have hbelow := hlast a ha l (List.mem_singleton_self l)
    refine ⟨hbelow.objects_le, hbelow.objects, hbelow.runners, fun id n n' hn hn' => ?_⟩
    have hne : id ≠ s.visibleObjects.length :=
      ((h.valid a (List.mem_append_left _ ha)).lookup_lt hn).ne
    exact hbelow.indices id n n' hn ((Element.pointToNextStateFor_lookup_of_ne hne).symm.trans hn')
  · intro p i hi
    exact (h.runnerObjects p i hi).trans_le (hlength ▸ Nat.le_succ _)
  · intro l' hl'
    rcases List.mem_append.mp hl' with hmem | hmem
    · exact h.initial l' (List.mem_append_left _ hmem)
    · obtain rfl := List.mem_singleton.mp hmem
      exact h.initial l (List.mem_append_right _ (List.mem_singleton_self l))
  · intro p i hp hi
    obtain ⟨v, hv, hfirst⟩ := h.discovered p i hp hi
    have hlt := h.runnerObjects p i hi
    exact ⟨v, (List.getElem?_append_left hlt).trans hv, hfirst⟩
  · intro id n hn
    have hn' : (s.representative.pointToNextStateFor
        s.visibleObjects.length).visibleObjectIndices.lookup id = some n := hn
    by_cases hid : id = s.visibleObjects.length
    · subst hid
      rw [← hl, hself] at hn'
      obtain rfl := Option.some.inj hn'
      exact ⟨.ofState o, List.getElem?_concat_length, rfl⟩
    · rw [Element.pointToNextStateFor_lookup_of_ne hid] at hn'
      obtain ⟨v, hv, hlast⟩ := h.current id n hn'
      have hlt := (List.getElem?_eq_some_iff.mp hv).1
      exact ⟨v, (List.getElem?_append_left hlt).trans hv, hlast⟩
  · intro id v hv hnone
    have hnone' : (s.representative.pointToNextStateFor
        s.visibleObjects.length).visibleObjectIndices.lookup id = none := hnone
    by_cases hid : id = s.visibleObjects.length
    · subst hid
      rw [← hl, hself] at hnone'
      cases hnone'
    · have hlt := (List.getElem?_eq_some_iff.mp hv).1
      rw [Element.pointToNextStateFor_lookup_of_ne hid] at hnone'
      refine h.unseen id v ?_ hnone'
      rw [← hv]
      have hle : id ≤ s.visibleObjects.length := Nat.le_of_lt_succ (hlt.trans_eq hlength)
      exact (List.getElem?_append_left (lt_of_le_of_ne hle hid)).symm

/-- What adding an object leaves of the states: all of them. -/
theorem Layered.enriched_addObject (h : s.Layered r₀ layers) (o : VisibleObjectState) :
    s.Enriched (s.addObject o).1 := by
  obtain ⟨init, l, rfl, hinit, hl⟩ := h.split
  have hvalid := h.valid l (List.mem_append_right _ (List.mem_singleton_self l))
  have hstates : ∀ {e e' : Element}, (∀ id n, e.visibleObjectIndices.lookup id = some n →
      e'.visibleObjectIndices.lookup id = some n) → e.maxVisibleRunnerId = e'.maxVisibleRunnerId →
      (s.stateAt e).ExtendedBy ((s.addObject o).1.stateAt e') := fun hentries hmax =>
    stateAt_extendedBy hentries
      (fun id v n o hv _ hstate => ⟨v, (List.getElem?_append_left
        (List.getElem?_eq_some_iff.mp hv).1).trans hv, hstate⟩)
      (fun p i hp hi => ⟨hmax ▸ hp, hi⟩)
  refine enriched_of_earlier rfl (fun e _ => hstates (fun _ _ hn => hn) rfl)
    (hstates (fun id n hn => ?_) Element.pointToNextStateFor_maxVisibleRunnerId.symm)
  have hne : id ≠ s.visibleObjects.length := (hvalid.lookup_lt (hl ▸ hn)).ne
  exact (Element.pointToNextStateFor_lookup_of_ne hne).trans hn

/-- The last object becomes that of a new runner, which begins. -/
theorem Layered.recordRunner (h : s.Layered r₀ layers) {m : InjectiveFunction RunnerId ObjId}
    {i : ObjId}
    (hforward : m.forward = s.runnerToObjMap.forward.insert s.runnerToObjMap.size i)
    (hout : ∀ l ∈ layers, l.objects ≤ i)
    (hembryo : ∃ v, s.visibleObjects[i]? = some v ∧ v.history[0]? = some (.thread ⟨.embryo⟩)) :
    ∃ layers', Layered ⟨m, s.visibleObjects, s.earlier, s.representative.recordNewRunner⟩ r₀
      layers' ∧ layers'.map Layer.marks = layers.map Layer.marks := by
  obtain ⟨init, l, rfl, hinit, hl⟩ := h.split
  have hsize := InjectiveFunction.size_of_forward_insert h.runnerKeys hforward
  have hlookup : ∀ p, m.lookup p =
      if s.runnerToObjMap.size = p then some i else s.runnerToObjMap.lookup p := by
    intro p
    rw [InjectiveFunction.lookup, hforward]
    exact lookup_insert _ _ _ _
  -- a runner of the new map is an old one, or the new one
  have hold : ∀ {p j}, m.lookup p = some j →
      s.runnerToObjMap.lookup p = some j ∨ p = s.runnerToObjMap.size ∧ j = i := by
    intro p j hj
    rw [hlookup] at hj
    split_ifs at hj with hp
    · exact .inr ⟨hp.symm, (Option.some.inj hj).symm⟩
    · exact .inl hj
  have hvalid : ∀ l' ∈ init ++ [l],
      l'.Valid ⟨m, s.visibleObjects, s.earlier, s.representative.recordNewRunner⟩ := by
    intro l' hl'
    refine (h.valid l' hl').grow (Grows.refl _) le_rfl (hsize ▸ Nat.le_succ _) fun p j hj => ?_
    obtain ⟨hobjects, hrunners⟩ := h.marks_le (List.mem_map_of_mem hl')
    -- the new object is behind the marks of each layer, and so is the number of the new runner
    rcases hold hj with hj | ⟨rfl, rfl⟩
    · exact .inl hj
    · exact .inr ⟨hrunners, hout l' hl'⟩
  obtain ⟨hpairs, -, hlast⟩ := List.pairwise_append.mp h.below
  refine ⟨init ++ [{ l with element := l.element.recordNewRunner }],
    ⟨?_, ?_, ?_, ?_, ?_, ?_, ?_, h.current, h.unseen⟩, by simp [Layer.marks]⟩
  · rw [List.map_append, hinit]
    show s.earlier ++ [l.element.recordNewRunner] = s.earlier ++ [s.representative.recordNewRunner]
    rw [hl]
  · intro l' hl'
    rcases List.mem_append.mp hl' with hmem | hmem
    · exact hvalid l' (List.mem_append_left _ hmem)
    · obtain rfl := List.mem_singleton.mp hmem
      have hgrown := hvalid l (List.mem_append_right _ (List.mem_singleton_self l))
      have hsees := (h.valid l (List.mem_append_right _ (List.mem_singleton_self l))).visible_le
      refine ⟨hgrown.objects_le, hgrown.runners_le.trans (Nat.le_succ _), ?_, hgrown.old,
        hgrown.added, hgrown.owned⟩
      exact (Nat.succ_le_succ hsees).trans_eq hsize.symm
  · refine List.pairwise_append.mpr ⟨hpairs, List.pairwise_singleton _ _, fun a ha b hb => ?_⟩
    obtain rfl := List.mem_singleton.mp hb
    have hbelow := hlast a ha l (List.mem_singleton_self l)
    exact ⟨hbelow.objects_le, hbelow.objects, hbelow.runners, hbelow.indices⟩
  · show m.forward.keys = Finset.range m.size
    rw [hsize, hforward, keys_insert, h.runnerKeys, ← Finset.range_add_one]
  · intro p j hj
    rcases hold hj with hj | ⟨-, rfl⟩
    · exact h.runnerObjects p j hj
    · obtain ⟨v, hv, -⟩ := hembryo
      exact (List.getElem?_eq_some_iff.mp hv).1
  · intro l' hl'
    rcases List.mem_append.mp hl' with hmem | hmem
    · exact h.initial l' (List.mem_append_left _ hmem)
    · obtain rfl := List.mem_singleton.mp hmem
      exact h.initial l (List.mem_append_right _ (List.mem_singleton_self l))
  · intro p j hp hj
    rcases hold hj with hj | ⟨-, rfl⟩
    · exact h.discovered p j hp hj
    · exact hembryo

/-- An added runner is seen by the representative, and gets the next number. -/
theorem Layered.addRunner (h : s.Layered r₀ layers) :
    (∃ layers', (s.addRunner ⟨.embryo⟩).1.Layered r₀ layers' ∧
      layers'.map Layer.marks = layers.map Layer.marks) ∧
      s.Enriched (s.addRunner ⟨.embryo⟩).1 ∧ (s.addRunner ⟨.embryo⟩).2 = .ok s.runnerToObjMap.size := by
  obtain ⟨m, hforward, heq⟩ := addRunner_eq h.runnerKeys h.runnerObjects ⟨.embryo⟩
  obtain ⟨layers₁, hlayers₁, hmarks₁⟩ := h.addObject (.thread ⟨.embryo⟩)
  have hout : ∀ l ∈ layers₁, l.objects ≤ s.visibleObjects.length := by
    intro l hl
    have hmem : l.marks ∈ layers.map Layer.marks := hmarks₁ ▸ List.mem_map_of_mem hl
    exact (h.marks_le hmem).1
  obtain ⟨layers', hlayers', hmarks'⟩ := hlayers₁.recordRunner hforward hout
    ⟨.ofState (.thread ⟨.embryo⟩), List.getElem?_concat_length, rfl⟩
  rw [heq]
  refine ⟨⟨layers', hlayers', hmarks'.trans hmarks₁⟩, ?_, rfl⟩
  refine (h.enriched_addObject (.thread ⟨.embryo⟩)).trans ?_
  have hmap : ∀ p i, s.runnerToObjMap.lookup p = some i → m.lookup p = some i := by
    intro p i hi
    have hne : s.runnerToObjMap.size ≠ p := by
      rintro rfl
      have hmem := Finmap.mem_keys.mpr (Finmap.mem_of_lookup_eq_some hi)
      rw [h.runnerKeys] at hmem
      exact Finset.notMem_range_self hmem
    rw [InjectiveFunction.lookup, hforward, lookup_insert, if_neg hne]
    exact hi
  refine enriched_of_earlier rfl (fun e _ => ?_) ?_
  · exact stateAt_extendedBy (fun _ _ hn => hn) (fun _ v _ _ hv _ hstate => ⟨v, hv, hstate⟩)
      fun p i hp hi => ⟨hp, hmap p i hi⟩
  · exact stateAt_extendedBy (fun _ _ hn => hn) (fun _ v _ _ hv _ hstate => ⟨v, hv, hstate⟩)
      fun p i hp hi => ⟨hp.trans (Nat.lt_succ_self _), hmap p i hi⟩

/-! ### Following a transition -/

theorem Layered.lookup_lt (h : s.Layered r₀ layers) {p : RunnerId} {i : ObjId}
    (hi : s.runnerToObjMap.lookup p = some i) : p < s.runnerToObjMap.size := by
  have hkeys := Finmap.mem_keys.mpr (Finmap.mem_of_lookup_eq_some hi)
  rwa [h.runnerKeys, Finset.mem_range] at hkeys

/-- The representative sees objects in their last states. -/
theorem Layered.last_of_objectState (h : s.Layered r₀ layers) {o : VisibleObjectState}
    (ho : s.toState.objectState id = some o) :
    ∃ v, s.visibleObjects[id]? = some v ∧ v.history.getLast v.history_ne_nil = o := by
  obtain ⟨v, n, hv, hn, hstate⟩ := stateAt_objectState.mp ho
  obtain ⟨v', hv', rfl⟩ := h.current id n hn
  obtain rfl : v = v' := Option.some.inj (hv.symm.trans hv')
  rw [v.history_getLastStateIndex, Option.some.injEq] at hstate
  exact ⟨v, hv, hstate⟩

/-- The state which is appended knows what has been recorded. -/
theorem Layered.extendedBy_record (h : s.Layered r₀ layers) {d : DiffState}
    (hbase : d.baseState = s.toState)
    (hnew : ∀ id o, d.newObjectStates.lookup id = some o → id < s.visibleObjects.length) :
    d.toState.ExtendedBy (s.record d).toState := by
  refine ⟨fun id o ho => ?_, fun p i hi => ?_⟩
  · have ho' : (d.newObjectStates.lookup id).or (s.toState.objectState id) = some o := hbase ▸ ho
    rw [record_objectState]
    cases hlookup : d.newObjectStates.lookup id with
    | none =>
      rw [hlookup, Option.none_or] at ho'
      obtain ⟨v, hv, rfl⟩ := h.last_of_objectState ho'
      rw [hv]
      rfl
    | some new =>
      obtain rfl : new = o := by rwa [hlookup, Option.some_or, Option.some.injEq] at ho'
      rw [List.getElem?_eq_getElem (hnew id new hlookup)]
      rfl
  · have hi' : s.toState.objidForRunner p = some i := hbase ▸ hi
    obtain ⟨-, hmap⟩ := stateAt_objidForRunner.mp hi'
    exact stateAt_objidForRunner.mpr ⟨h.lookup_lt hmap, hmap⟩

/-- The state which is reached knows what the transition leads to. Objects which had not been seen
are seen in their last states. -/
theorem Layered.fire_of_follow (h : s.Layered r₀ layers) {t : Transition}
    (hfollow : s.follow t = (s', .ok .exists')) :
    ∃ u, fire t s.toState = some u ∧ u.ExtendedBy s'.toState ∧
      ∀ id v, s.visibleObjects[id]? = some v → s.toState.objectState id = none →
        s'.toState.objectState id = some (v.history.getLast v.history_ne_nil) := by
  obtain ⟨d, happly, hbase, rfl⟩ := follow_eq_exists hfollow
  have hfire : fire t s.toState = some d.toState := by simp [fire, happly]
  have hlookup : ∀ id, d.toState.objectState id =
      (d.newObjectStates.lookup id).or (s.toState.objectState id) := by
    intro id
    rw [← hbase]
    rfl
  -- the transition replaces the states of objects which are seen
  have hreplaced : ∀ id o, d.newObjectStates.lookup id = some o →
      ∃ old, s.toState.objectState id = some old := by
    intro id o ho
    have htype := (fire_eq_some_iff_step.mp hfire).objectType_eq id
    rw [hlookup, ho, Option.some_or] at htype
    obtain ⟨old, hold, -⟩ := Option.map_eq_some_iff.mp htype.symm
    exact ⟨old, hold⟩
  refine ⟨_, hfire, h.extendedBy_record hbase fun id o ho => ?_, fun id v hv hnone => ?_⟩
  · obtain ⟨old, hold⟩ := hreplaced id o ho
    obtain ⟨v, hv, -⟩ := h.last_of_objectState hold
    exact (List.getElem?_eq_some_iff.mp hv).1
  · rw [record_objectState, hv, Option.map_some]
    cases hnew : d.newObjectStates.lookup id with
    | none => rfl
    | some o =>
      obtain ⟨old, hold⟩ := hreplaced id o hnew
      exact absurd (hnone.symm.trans hold) (Option.some_ne_none old).symm

/-- The state which is reached is a layer of its own. -/
theorem Layered.record (h : s.Layered r₀ layers) (hr₀ : r₀ ≤ s.runnerToObjMap.size)
    (d : DiffState) : (s.record d).Layered r₀ (layers ++
      [⟨(s.record d).representative, s.visibleObjects.length, s.runnerToObjMap.size⟩]) := by
  obtain ⟨hrunners, -, hlength, hhistories⟩ := continues_record s d
  set s' := s.record d
  have hgrows : Grows s.visibleObjects s'.visibleObjects := by
    intro i v hv
    obtain ⟨v', hv', hpre⟩ := hhistories i v hv
    exact ⟨v', hv', hpre.length_le⟩
  have hrep : s'.representative = s'.snapshot := rfl
  -- the snapshot points to the last state of every object
  have hindices : ∀ id, s'.representative.visibleObjectIndices.lookup id =
      (s'.visibleObjects[id]?).map VisibleObject.getLastStateIndex := by
    intro id
    rw [hrep]
    exact Element.lastIndices_lookup
  have hmax : s'.representative.maxVisibleRunnerId = s.runnerToObjMap.size := by
    rw [hrep, ← hrunners]
    rfl
  -- the histories only grow, so all layers remain valid
  have hkept : ∀ l ∈ layers, l.Valid s' := fun l hl =>
    (h.valid l hl).grow hgrows hlength.ge (by rw [hrunners]) fun p i hi => .inl (hrunners ▸ hi)
  refine ⟨?_, fun l hl => ?_, ?_, ?_, ?_, fun l hl => ?_, fun p i hp hi => ?_, fun id n hn => ?_,
    fun id v hv hnone => ?_⟩
  · rw [List.map_append, h.elements]
    rfl
  · rcases List.mem_append.mp hl with hmem | hmem
    · exact hkept l hmem
    · obtain rfl := List.mem_singleton.mp hmem
      refine ⟨hlength.ge, hmax.ge, (hmax.trans (by rw [hrunners])).le, fun id hid => ?_,
        fun id n hid hn => ?_, fun p i hi => ?_⟩
      · obtain ⟨v, hv⟩ : ∃ v, s'.visibleObjects[id]? = some v :=
          ⟨_, List.getElem?_eq_getElem (hid.trans_eq hlength.symm)⟩
        exact ⟨v, v.getLastStateIndex, hv, by rw [hindices, hv, Option.map_some],
          v.getLastStateIndex_lt⟩
      · obtain ⟨v, hv, -⟩ := Option.map_eq_some_iff.mp ((hindices id).symm.trans hn)
        have hlt := (List.getElem?_eq_some_iff.mp hv).1.trans_eq hlength
        exact absurd hid (not_le.mpr hlt)
      · have hi' : s.runnerToObjMap.lookup p = some i := hrunners ▸ hi
        have hp : p ∈ s.runnerToObjMap.forward.keys :=
          Finmap.mem_keys.mpr (Finmap.mem_of_lookup_eq_some hi')
        rw [h.runnerKeys, Finset.mem_range] at hp
        exact iff_of_true hp (h.runnerObjects p i hi')
  -- an earlier state has an index of each history, and the snapshot has the last one
  · refine List.pairwise_append.mpr ⟨h.below, List.pairwise_singleton _ _, fun a ha b hb => ?_⟩
    obtain rfl := List.mem_singleton.mp hb
    have hvalid := h.valid a ha
    refine ⟨hvalid.objects_le, fun id n hn => hvalid.lookup_lt hn, hvalid.visible_le,
      fun id n n' hn hn' => ?_⟩
    obtain ⟨v', hv', rfl⟩ := Option.map_eq_some_iff.mp ((hindices id).symm.trans hn')
    obtain ⟨v, hv, hlt⟩ := (hkept a ha).lookup_valid hn
    obtain rfl : v = v' := Option.some.inj (hv.symm.trans hv')
    exact Nat.le_sub_one_of_lt hlt
  · rw [hrunners]
    exact h.runnerKeys
  · intro p i hi
    exact (h.runnerObjects p i (hrunners ▸ hi)).trans_eq hlength.symm
  · rcases List.mem_append.mp hl with hmem | hmem
    · exact h.initial l hmem
    · obtain rfl := List.mem_singleton.mp hmem
      exact hr₀
  · obtain ⟨v, hv, hfirst⟩ := h.discovered p i hp (hrunners ▸ hi)
    obtain ⟨v', hv', hpre⟩ := hhistories i v hv
    exact ⟨v', hv', getElem?_of_prefix hpre hfirst⟩
  · obtain ⟨v, hv, rfl⟩ := Option.map_eq_some_iff.mp ((hindices id).symm.trans hn)
    exact ⟨v, hv, rfl⟩
  · rw [hindices, hv] at hnone
    cases hnone

theorem Layered.follow (h : s.Layered r₀ layers) (hr₀ : r₀ ≤ s.runnerToObjMap.size)
    {t : Transition} (hfollow : s.follow t = (s', .ok .exists')) :
    s'.Layered r₀ (layers ++
      [⟨s'.representative, s.visibleObjects.length, s.runnerToObjMap.size⟩]) := by
  obtain ⟨d, -, -, rfl⟩ := follow_eq_exists hfollow
  exact h.record hr₀ d

theorem enriched_record (s : StateSequence) (d : DiffState) : s.Enriched (s.record d) := by
  obtain ⟨hrunners, -, -, hhistories⟩ := continues_record s d
  have hstates : ∀ e, (s.stateAt e).ExtendedBy ((s.record d).stateAt e) := by
    refine fun e => stateAt_extendedBy (fun _ _ hn => hn) (fun id v n o hv _ hstate => ?_)
      fun p i hp hi => ⟨hp, hrunners.symm ▸ hi⟩
    obtain ⟨v', hv', hpre⟩ := hhistories id v hv
    exact ⟨v', hv', getElem?_of_prefix hpre hstate⟩
  intro i u hu
  obtain ⟨e, he, rfl⟩ := Option.map_eq_some_iff.mp hu
  exact ⟨_, stateAtDepth_eq_some.mpr (.inl ⟨e, he, rfl⟩), hstates e⟩

theorem enriched_follow {t : Transition} (hfollow : s.follow t = (s', .ok .exists')) :
    s.Enriched s' := by
  obtain ⟨d, -, -, rfl⟩ := follow_eq_exists hfollow
  exact enriched_record s d

/-! ### Going back -/

/-- The cuts, when nothing is thrown: what the element contains, it has an entry for. -/
theorem sliceObjects_eq_ok {e : Element} {objects objects' : List VisibleObject} {i : ObjId}
    (h : sliceObjects e i objects = (objects', .ok ())) (k : ℕ) :
    objects'[k]? = (objects[k]?).map (·.slice (e.cut (i + k))) ∧
      (k < objects.length → e.containsObjectWithId (i + k) = true →
        i + k ∈ e.visibleObjectIndices) := by
  induction objects generalizing i objects' k with
  | nil =>
    obtain rfl := (Prod.mk.inj h).1
    exact ⟨rfl, fun hk => absurd hk (Nat.not_lt_zero k)⟩
  | cons v vs ih =>
    -- the rest is cut without an exception, and the first object has an entry if it is contained
    obtain ⟨vs', hvs', rfl, hentry⟩ : ∃ vs', sliceObjects e (i + 1) vs = (vs', .ok ()) ∧
        objects' = v.slice (e.cut i) :: vs' ∧
        (e.containsObjectWithId i = true → i ∈ e.visibleObjectIndices) := by
      rw [sliceObjects] at h
      by_cases hcontains : e.containsObjectWithId i = true
      · rw [if_pos hcontains] at h
        cases hlookup : e.visibleObjectIndices.lookup i with
        | none =>
          rw [hlookup] at h
          cases (Prod.mk.inj h).2
        | some n =>
          rw [hlookup] at h
          obtain ⟨hobjects, hresult⟩ := Prod.mk.inj h
          refine ⟨_, Prod.ext rfl hresult, ?_, fun _ => Finmap.mem_of_lookup_eq_some hlookup⟩
          rw [← hobjects, Element.cut, if_pos hcontains, hlookup]
          rfl
      · rw [if_neg hcontains] at h
        obtain ⟨hobjects, hresult⟩ := Prod.mk.inj h
        refine ⟨_, Prod.ext rfl hresult, ?_, fun hc => absurd hc hcontains⟩
        rw [← hobjects, Element.cut, if_neg hcontains]
    cases k with
    | zero => exact ⟨rfl, fun _ => hentry⟩
    | succ k =>
      obtain ⟨hcut, hmem⟩ := ih hvs' k
      have hadd : i + 1 + k = i + (k + 1) := by rw [Nat.add_assoc, Nat.add_comm 1 k]
      rw [hadd] at hcut hmem
      exact ⟨hcut, fun hk => hmem (Nat.lt_of_succ_lt_succ hk)⟩

/-- How far the histories are cut: not below what the remaining layers see. -/
theorem Layered.le_cut (h : s.Layered r₀ layers) {layer l' : Layer}
    (hl : layer ∈ layers) (hl' : l' ∈ layers) (hle : layer = l' ∨ layer.Below l')
    (hcontained : ∀ id < s.visibleObjects.length, l'.element.containsObjectWithId id = true →
      id ∈ l'.element.visibleObjectIndices)
    (hn : layer.element.visibleObjectIndices.lookup id = some n) : n ≤ l'.element.cut id := by
  have hvalid := h.valid l' hl'
  have hlt := (h.valid layer hl).lookup_lt hn
  by_cases hid : id < l'.objects
  · -- the objects from before the layer are among the first, so they are contained
    have hcount : l'.objects ≤ l'.element.count := by
      have hsub : Finset.range l'.objects ⊆ l'.element.visibleObjectIndices.keys := by
        intro j hj
        obtain ⟨-, m, -, hm, -⟩ := hvalid.old j (Finset.mem_range.mp hj)
        exact Finmap.mem_keys.mpr (Finmap.mem_of_lookup_eq_some hm)
      simpa [Element.count] using Finset.card_le_card hsub
    have hcontains : l'.element.containsObjectWithId id = true :=
      decide_eq_true (hid.trans_le hcount)
    obtain ⟨-, m, -, hm, -⟩ := hvalid.old id hid
    rw [Element.cut, if_pos hcontains, hm, Option.getD_some]
    rcases hle with rfl | hbelow
    · exact (Option.some.inj (hn.symm.trans hm)).le
    · exact hbelow.indices id n m hn hm
  · rcases hle with rfl | hbelow
    · obtain ⟨rfl, -⟩ := hvalid.added id n (not_lt.mp hid) hn
      exact Nat.zero_le _
    · exact absurd (hbelow.objects id n hn) hid

theorem Layered.length (h : s.Layered r₀ layers) : layers.length = s.earlier.length + 1 := by
  have hlength := congrArg List.length h.elements
  rwa [List.length_map, statesInSequence, List.length_append, List.length_singleton] at hlength

/-- Going back cuts every history where the remaining representative says. -/
theorem consumeIntoSubsequence_eq_ok {depth : ℕ} (hdepth : depth < s.earlier.length)
    (h : s.consumeIntoSubsequence (depth + 1) = (s', .ok ())) :
    ∃ e, s.earlier[depth]? = some e ∧ s' = ⟨s.runnerToObjMap, s'.visibleObjects,
        s.earlier.take depth, e⟩ ∧
      (∀ id : ObjId, s'.visibleObjects[id]? = (s.visibleObjects[id]?).map (·.slice (e.cut id))) ∧
      ∀ id < s.visibleObjects.length, e.containsObjectWithId id = true →
        id ∈ e.visibleObjectIndices := by
  unfold StateSequence.consumeIntoSubsequence at h
  have hlength : ¬ s.statesInSequence.length ≤ depth + 1 := by
    rw [statesInSequence, List.length_append, List.length_singleton]
    omega
  obtain ⟨e, he⟩ : ∃ e, s.earlier[depth]? = some e := ⟨_, List.getElem?_eq_getElem hdepth⟩
  rw [if_neg hlength] at h
  simp only [he] at h
  obtain ⟨hs', hresult⟩ := Prod.mk.inj h
  have hslice : sliceObjects e 0 s.visibleObjects = (s'.visibleObjects, .ok ()) := by
    refine Prod.ext ?_ hresult
    rw [← hs']
  refine ⟨e, he, ?_, fun id => ?_, fun id hid => ?_⟩
  · rw [← hs']
  · have hcut := (sliceObjects_eq_ok hslice id).1
    rwa [Nat.zero_add] at hcut
  · have hmem := (sliceObjects_eq_ok hslice id).2
    rw [Nat.zero_add] at hmem
    exact hmem hid

/-- **Going back restores the layers.** The states of those which remain are what they were. -/
theorem Layered.consumeIntoSubsequence (h : s.Layered r₀ layers) {depth : ℕ}
    (hconsume : s.consumeIntoSubsequence (depth + 1) = (s', .ok ())) :
    s'.Layered r₀ (layers.take (depth + 1)) ∧
      (∀ i ≤ depth, s'.stateAtDepth i = s.stateAtDepth i) ∧
      s'.runnerToObjMap = s.runnerToObjMap := by
  by_cases hdepth : depth < s.earlier.length
  · obtain ⟨e, he, hs', hcut, hcontained⟩ := consumeIntoSubsequence_eq_ok hdepth hconsume
    have hlt : depth < layers.length := by
      rw [h.length]
      omega
    obtain ⟨layer, hlayer⟩ : ∃ layer, layers[depth]? = some layer :=
      ⟨_, List.getElem?_eq_getElem hlt⟩
    have htake : layers.take (depth + 1) = layers.take depth ++ [layer] := by
      rw [List.take_add_one, hlayer]
      rfl
    have hmem : layer ∈ layers := List.mem_of_getElem? hlayer
    -- the layer which becomes the last one is that of the element at the depth
    have helement : layer.element = e := by
      have hmap := congrArg (·[depth]?) h.elements
      simp only [List.getElem?_map, hlayer, Option.map_some, statesInSequence,
        List.getElem?_append_left hdepth, he] at hmap
      exact Option.some.inj hmap
    have hbelow : (layers.take (depth + 1)).Pairwise Layer.Below :=
      h.below.sublist (List.take_sublist _ _)
    have hle : ∀ l ∈ layers.take (depth + 1), l = layer ∨ l.Below layer := by
      intro l hl
      rw [htake] at hl hbelow
      rcases List.mem_append.mp hl with hl | hl
      · exact .inr ((List.pairwise_append.mp hbelow).2.2 l hl layer (List.mem_singleton_self _))
      · exact .inl (List.mem_singleton.mp hl)
    have hsub : ∀ l ∈ layers.take (depth + 1), l ∈ layers := fun l => List.mem_of_mem_take
    -- the histories are cut behind what this layer sees, and the layers before see no more
    have hseen : ∀ {id n}, ∀ l ∈ layers.take (depth + 1),
        l.element.visibleObjectIndices.lookup id = some n → n ≤ e.cut id := by
      intro id n l hl hn
      rw [← helement]
      exact h.le_cut (hsub l hl) hmem (hle l hl) (helement ▸ hcontained) hn
    have hlength : s'.visibleObjects.length = s.visibleObjects.length := by
      refine le_antisymm (List.getElem?_eq_none_iff.mp ?_) (List.getElem?_eq_none_iff.mp ?_)
      · rw [hcut, List.getElem?_eq_none le_rfl, Option.map_none]
      · exact Option.map_eq_none_iff.mp ((hcut _).symm.trans (List.getElem?_eq_none le_rfl))
    have hrunners : s'.runnerToObjMap = s.runnerToObjMap := by rw [hs']
    have helements : (layers.take (depth + 1)).map Layer.element = s'.statesInSequence := by
      rw [hs', htake, List.map_append, List.map_take, h.elements, statesInSequence, statesInSequence,
        List.take_append_of_le_length hdepth.le, List.map_singleton, helement]
    have hrepresentative : s'.representative = e := by rw [hs']
    -- the histories which remain are beginnings of those before
    have hobject : ∀ {id v}, s'.visibleObjects[id]? = some v →
        ∃ w : VisibleObject, s.visibleObjects[id]? = some w ∧ v = w.slice (e.cut id) := by
      intro id v hv
      obtain ⟨w, hw, rfl⟩ := Option.map_eq_some_iff.mp ((hcut id).symm.trans hv)
      exact ⟨w, hw, rfl⟩
    refine ⟨⟨helements, fun l hl => ?_, hbelow, hrunners ▸ h.runnerKeys, fun p i hi => ?_,
      fun l hl => h.initial l (hsub l hl), fun p i hp hi => ?_, fun id n hn => ?_,
      fun id v hv hnone => ?_⟩, fun i hi => ?_, hrunners⟩
    · have hvalid := h.valid l (hsub l hl)
      refine ⟨hvalid.objects_le.trans_eq hlength.symm, hvalid.runners_le,
        hvalid.visible_le.trans_eq (by rw [hrunners]), fun id hid => ?_, fun id n hid hn => ?_,
        fun p i hi => hvalid.owned p i (hrunners ▸ hi)⟩
      · obtain ⟨v, n, hv, hn, hlt⟩ := hvalid.old id hid
        refine ⟨v.slice (e.cut id), n, by rw [hcut, hv, Option.map_some], hn, ?_⟩
        have hn' := hseen l hl hn
        rw [VisibleObject.slice_history, List.length_take]
        omega
      · obtain ⟨hzero, hlt⟩ := hvalid.added id n hid hn
        exact ⟨hzero, hlt.trans_eq hlength.symm⟩
    · exact (h.runnerObjects p i (hrunners ▸ hi)).trans_eq hlength.symm
    · obtain ⟨v, hv, hfirst⟩ := h.discovered p i hp (hrunners ▸ hi)
      refine ⟨v.slice (e.cut i), by rw [hcut, hv, Option.map_some], ?_⟩
      rw [VisibleObject.slice_history, List.getElem?_take_of_lt (Nat.succ_pos _), hfirst]
    · rw [hrepresentative] at hn
      have hvalid := h.valid layer hmem
      -- what the last layer sees is what is left last
      have hcutn : e.cut id = n := le_antisymm (Element.cut_le hn)
        (hseen layer (htake ▸ List.mem_append_right _ (List.mem_singleton_self _)) (helement ▸ hn))
      obtain ⟨v, hv, hlt⟩ := hvalid.lookup_valid (helement ▸ hn)
      refine ⟨v.slice (e.cut id), by rw [hcut, hv, Option.map_some], ?_⟩
      rw [VisibleObject.getLastStateIndex, VisibleObject.slice_history, List.length_take, hcutn]
      omega
    · rw [hrepresentative] at hnone
      obtain ⟨w, -, rfl⟩ := hobject hv
      have hpos := w.length_pos
      have hzero : e.cut id = 0 := by
        rw [Element.cut, hnone]
        exact ite_self _
      rw [VisibleObject.slice_history, List.length_take, hzero]
      omega
    -- an earlier state is the same, as the states which it sees are not cut away
    · have hsame : s'.statesInSequence[i]? = s.statesInSequence[i]? := by
        rw [← helements, ← h.elements, List.map_take, List.getElem?_take_of_lt (by omega)]
      rw [stateAtDepth, stateAtDepth, hsame, ← h.elements, List.getElem?_map]
      cases hl : layers[i]? with
      | none => rfl
      | some l =>
        have hl' : l ∈ layers.take (depth + 1) := by
          refine List.mem_of_getElem? (i := i) ?_
          rw [List.getElem?_take_of_lt (by omega), hl]
        refine congrArg some (State.ExtendedBy.antisymm ?_ ?_)
        · refine stateAt_extendedBy (fun _ _ hn => hn) (fun id v n o hv hn hstate => ?_)
            fun p i hp hi => ⟨hp, hrunners ▸ hi⟩
          obtain ⟨w, hw, rfl⟩ := hobject hv
          rw [VisibleObject.slice_history] at hstate
          exact ⟨w, hw, getElem?_of_prefix (List.take_prefix _ _) hstate⟩
        · refine stateAt_extendedBy (fun _ _ hn => hn) (fun id v n o hv hn hstate => ?_)
            fun p i hp hi => ⟨hp, hrunners.symm ▸ hi⟩
          refine ⟨v.slice (e.cut id), by rw [hcut, hv, Option.map_some], ?_⟩
          have hn' := hseen l hl' hn
          rw [VisibleObject.slice_history, List.getElem?_take_of_lt (by omega), hstate]
  -- there is nothing to go back from
  · have hlength : s.statesInSequence.length ≤ depth + 1 := by
      rw [statesInSequence, List.length_append, List.length_singleton]
      omega
    unfold StateSequence.consumeIntoSubsequence at hconsume
    rw [if_pos hlength] at hconsume
    obtain rfl := (Prod.mk.inj hconsume).1
    rw [List.take_of_length_le (by rw [h.length]; omega)]
    exact ⟨h, fun _ _ => rfl, rfl⟩

end Operations

end StateSequence

end McMini
