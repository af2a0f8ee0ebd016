import McMini.Model.Program
import McMini.Properties.RepresentationInvariant

/-!
# Executing and going back

As long as nothing is discovered, a program which has executed further transitions still contains
what it was before: its first states are those it had, the histories of its objects begin with
those they had, and what its runners were about to do they have done first
(`Program.Extends`). Going back takes this out again, and nothing else
(`Program.Extends.restoreModelAtDepth`), except that going back to depth `0` leaves the pending
transitions alone.
-/

namespace McMini

open Foundation

namespace StateSequence

variable {s : StateSequence}

/-- A consistent sequence whose representative sees everything there is, as it is now. -/
structure Settled (s : StateSequence) : Prop where
  consistent : s.Consistent
  current : s.Current

theorem Current.count_eq (h : s.Current) : s.representative.count = s.visibleObjects.length := by
  have hkeys : s.representative.visibleObjectIndices.keys =
      Finset.range s.visibleObjects.length := by
    ext id
    rw [Finmap.mem_keys, ← Finmap.lookup_isSome, h.indices]
    simp
  rw [Element.count, hkeys, Finset.card_range]

theorem Current.addObject (h : s.Current) (o : VisibleObjectState) :
    (s.addObject o).1.Current := by
  refine ⟨fun id => ?_, by simpa [StateSequence.addObject] using h.runners⟩
  simp only [StateSequence.addObject]
  rcases lt_trichotomy id s.visibleObjects.length with hid | rfl | hid
  · rw [Element.pointToNextStateFor_lookup_of_ne hid.ne, h.indices,
      List.getElem?_append_left hid]
  · rw [Element.pointToNextStateFor_lookup_self, h.indices]
    simp [VisibleObject.getLastStateIndex]
  · rw [Element.pointToNextStateFor_lookup_of_ne hid.ne', h.indices,
      List.getElem?_eq_none hid.le, List.getElem?_eq_none (by simpa using Nat.succ_le_of_lt hid)]

/-- The initial sequences are settled. -/
theorem settled_ofDetachedState (d : DetachedState) : (ofDetachedState d).Settled := by
  refine ⟨consistent_ofDetachedState d, ?_⟩
  have hcurrent : ∀ objects : List VisibleObjectState,
      (objects.foldl (fun s o => (s.addObject o).1) empty).Current := by
    intro objects
    induction objects using List.reverseRecOn with
    | nil => exact ⟨fun id => by simp [empty], rfl⟩
    | append_singleton objects o ih =>
      rw [List.foldl_append]
      exact ih.addObject o
  exact ⟨(hcurrent d.visibleObjects).indices, rfl⟩

/-- They consist of one state. -/
theorem ofDetachedState_earlier (d : DetachedState) : (ofDetachedState d).earlier = [] := by
  have hearlier : ∀ objects : List VisibleObjectState,
      (objects.foldl (fun s o => (s.addObject o).1) empty).earlier = [] := by
    intro objects
    induction objects using List.reverseRecOn with
    | nil => rfl
    | append_singleton objects o ih =>
      rw [List.foldl_append]
      exact ih
  exact hearlier d.visibleObjects

theorem Settled.addObject (h : s.Settled) (o : VisibleObjectState) :
    (s.addObject o).1.Settled :=
  ⟨h.consistent.addObject o h.current.count_eq, h.current.addObject o⟩

theorem Settled.addRunner (h : s.Settled) (t : Thread) :
    (s.addRunner t).1.Settled ∧ (s.addRunner t).2 = .ok s.runnerToObjMap.size := by
  obtain ⟨hconsistent, hreply⟩ :=
    h.consistent.addRunner t h.current.count_eq h.current.runners
  refine ⟨⟨hconsistent, ?_⟩, hreply⟩
  obtain ⟨m, hforward, heq⟩ := h.consistent.addRunner_eq t
  have hsize := InjectiveFunction.size_of_forward_insert h.consistent.runnerKeys hforward
  rw [heq]
  refine ⟨(h.current.addObject (.thread t)).indices, ?_⟩
  show (s.addObject (.thread t)).1.representative.maxVisibleRunnerId + 1 = m.size
  rw [(h.current.addObject (.thread t)).runners, hsize]
  rfl

theorem Settled.follow (h : s.Settled) {s' : StateSequence} {t : Transition}
    (hfollow : s.follow t = (s', .ok .exists')) : s'.Settled := by
  have hconsistent := h.consistent.follow t
  rw [hfollow] at hconsistent
  exact ⟨hconsistent, (h.current.follow hfollow).2⟩

/-! ### Following transitions and going back -/

section Execute

variable {s' s'' base : StateSequence} {t : Transition}

theorem follow_exists_earlier (h : s.follow t = (s', .ok .exists')) :
    s'.earlier = s.earlier ++ [s.representative] := by
  obtain ⟨d, -, -, rfl⟩ := StateSequence.follow_eq_exists h
  rfl

/-- The sequence `s` has followed transitions since it was `base`. -/
structure Continues (base s : StateSequence) : Prop where
  runners : s.runnerToObjMap = base.runnerToObjMap
  elements : base.statesInSequence <+: s.statesInSequence
  objects : s.visibleObjects.length = base.visibleObjects.length
  histories : ∀ (i : ObjId) (v : VisibleObject), base.visibleObjects[i]? = some v →
    ∃ v' : VisibleObject, s.visibleObjects[i]? = some v' ∧ v.history <+: v'.history

theorem Continues.refl (s : StateSequence) : s.Continues s :=
  ⟨rfl, List.prefix_rfl, rfl, fun _ v hv => ⟨v, hv, List.prefix_rfl⟩⟩

theorem Continues.trans (h : s.Continues s') (h' : s'.Continues s'') : s.Continues s'' := by
  refine ⟨h'.runners.trans h.runners, h.elements.trans h'.elements, h'.objects.trans h.objects,
    fun i v hv => ?_⟩
  obtain ⟨v', hv', hpre⟩ := h.histories i v hv
  obtain ⟨v'', hv'', hpre'⟩ := h'.histories i v' hv'
  exact ⟨v'', hv'', hpre.trans hpre'⟩

theorem continues_record (s : StateSequence) (d : DiffState) : s.Continues (s.record d) := by
  refine ⟨rfl, List.prefix_append _ _, StateSequence.pushNewStates_length _ _, fun i v hv => ?_⟩
  rw [StateSequence.record_visibleObjects, hv, Option.map_some]
  refine ⟨_, rfl, ?_⟩
  cases d.newObjectStates.lookup i with
  | none => exact List.prefix_rfl
  | some o => exact List.prefix_append _ _

theorem continues_follow (h : s.follow t = (s', .ok .exists')) : s.Continues s' := by
  obtain ⟨d, -, -, rfl⟩ := StateSequence.follow_eq_exists h
  exact continues_record s d

/-- Cutting the histories to what the earlier representative saw gives the earlier ones. -/
theorem sliceObjects_of_histories {e : Element} {objects objects' : List VisibleObject}
    (he : ∀ id, e.visibleObjectIndices.lookup id =
      (objects[id]?).map VisibleObject.getLastStateIndex)
    (hcontains : ∀ id, e.containsObjectWithId id = true ↔ id ∈ e.visibleObjectIndices)
    (hlength : objects'.length = objects.length)
    (hhistories : ∀ (i : ObjId) (v : VisibleObject), objects[i]? = some v →
      ∃ v' : VisibleObject, objects'[i]? = some v' ∧ v.history <+: v'.history) :
    StateSequence.sliceObjects e 0 objects' = (objects, .ok ()) := by
  rw [StateSequence.sliceObjects_eq hcontains]
  refine Prod.ext (List.ext_getElem? fun i => ?_) rfl
  simp only [List.getElem?_map, List.getElem?_zipIdx]
  cases hv : objects[i]? with
  | none =>
    have hle := List.getElem?_eq_none_iff.mp hv
    rw [List.getElem?_eq_none (hlength.trans_le hle)]
    rfl
  | some v =>
    obtain ⟨v', hv', hpre⟩ := hhistories i v hv
    simp only [hv', Option.map_some, Nat.zero_add, he, hv, Option.getD_some]
    refine congrArg some (VisibleObject.ext ?_)
    rw [VisibleObject.slice_history, VisibleObject.getLastStateIndex,
      Nat.sub_add_cancel v.length_pos]
    exact (List.prefix_iff_eq_take.mp hpre).symm

/-- Going back to where the sequence was `base` gives `base`. -/
theorem Continues.consumeIntoSubsequence (h : base.Continues s) (hbase : base.Settled)
    (hsame : s.earlier.length = base.earlier.length → base = s) :
    s.consumeIntoSubsequence (base.earlier.length + 1) = (base, .ok ()) := by
  have hlength := h.elements.length_le
  simp only [StateSequence.statesInSequence, List.length_append, List.length_singleton] at hlength
  unfold StateSequence.consumeIntoSubsequence
  by_cases hcut : s.earlier.length = base.earlier.length
  · obtain rfl := hsame hcut
    rw [if_pos (by simp [StateSequence.statesInSequence])]
  · rw [if_neg (by simp [StateSequence.statesInSequence]; omega)]
    -- the states of `base` are the first ones, the representative included
    have hpre : base.statesInSequence <+: s.earlier := by
      have hpre := h.elements
      rw [List.prefix_iff_eq_take] at hpre ⊢
      rw [hpre]
      simp only [StateSequence.statesInSequence, List.length_append, List.length_singleton,
        List.length_take]
      rw [List.take_append_of_le_length (by omega)]
      congr 1
      omega
    obtain ⟨rest, hrest⟩ := hpre
    rw [StateSequence.statesInSequence, List.append_assoc] at hrest
    have hrep : s.earlier[base.earlier.length]? = some base.representative := by
      rw [← hrest]
      simp
    have htake : s.earlier.take base.earlier.length = base.earlier := by
      rw [← hrest]
      simp
    have hcurrent := hbase.current.indices
    have hcontains := (hbase.consistent.represents _
      (StateSequence.representative_mem _)).contains_iff
    simp only [hrep, htake, h.runners,
      sliceObjects_of_histories hcurrent hcontains h.objects h.histories]

/-- What an element of `base` answers is what it answered then. -/
theorem Continues.stateAt (h : base.Continues s) (hbase : base.Consistent) {e : Element}
    (he : e ∈ base.statesInSequence) : s.stateAt e = base.stateAt e := by
  ext : 1
  · funext id
    refine congrArg Except.toOption ?_
    unfold StateSequence.getStateOfObjectAt
    cases hn : e.visibleObjectIndices.lookup id with
    | none => cases s.visibleObjects[id]? <;> cases base.visibleObjects[id]? <;> rfl
    | some n =>
      obtain ⟨v, hv, hlt⟩ := (hbase.represents e he).valid id n hn
      obtain ⟨v', hv', rest, hrest⟩ := h.histories id v hv
      rw [hv, hv']
      simp only [← hrest, List.getElem?_append_left hlt]
  · funext p
    simp only [StateSequence.stateAt, StateSequence.getObjidForRunnerAt,
      StateSequence.containsRunnerWithIdAt, h.runners]
    rfl

end Execute

end StateSequence

namespace Program

/-- Each state of the sequence follows from the one before by a transition of the trace, and what
a runner is about to do is its own. -/
structure InStep (p : Program) : Prop where
  length : p.stateSeq.earlier.length = p.trace.length
  settled : p.stateSeq.Settled
  keyed : ∀ q t, p.nextSteps.lookup q = some t → t.executor = q

/-- The program `p` has executed the transitions `ts` since it was `base`. -/
structure Extends (base p : Program) (ts : List Transition) : Prop where
  trace : p.trace = base.trace ++ ts
  runners : p.stateSeq.runnerToObjMap = base.stateSeq.runnerToObjMap
  elements : base.stateSeq.statesInSequence <+: p.stateSeq.statesInSequence
  objects : p.stateSeq.visibleObjects.length = base.stateSeq.visibleObjects.length
  histories : ∀ (i : ObjId) (v : VisibleObject), base.stateSeq.visibleObjects[i]? = some v →
    ∃ v' : VisibleObject, p.stateSeq.visibleObjects[i]? = some v' ∧ v.history <+: v'.history
  pending : ∀ q, base.nextSteps.lookup q =
    (ts.find? (·.executor == q)).or (p.nextSteps.lookup q)

variable {base p p' : Program} {ts : List Transition} {q : RunnerId} {t : Transition}

theorem Extends.refl (p : Program) : p.Extends p [] :=
  ⟨by simp, rfl, List.prefix_rfl, rfl, fun _ v hv => ⟨v, hv, List.prefix_rfl⟩, by simp⟩

theorem Extends.continues (h : base.Extends p ts) : base.stateSeq.Continues p.stateSeq :=
  ⟨h.runners, h.elements, h.objects, h.histories⟩

theorem InStep.modelExecutionOf (h : p.InStep) (hmodel : p.modelExecutionOf q t = .ok p') :
    p'.InStep := by
  obtain ⟨hexec, next, s', hnext, hfollow, rfl⟩ := modelExecutionOf_eq_ok.mp hmodel
  refine ⟨?_, h.settled.follow hfollow, fun r u hu => ?_⟩
  · rw [StateSequence.follow_exists_earlier hfollow, List.length_append, List.length_append, h.length]
    rfl
  · have hlookup : (p.nextSteps.insert q t).lookup r = some u := hu
    rw [lookup_insert] at hlookup
    split_ifs at hlookup with hr
    · exact (Option.some.inj hlookup ▸ hexec).trans hr
    · exact h.keyed r u hlookup

theorem Extends.modelExecutionOf (h : base.Extends p ts)
    (hkeyed : ∀ q t, p.nextSteps.lookup q = some t → t.executor = q)
    (hmodel : p.modelExecutionOf q t = .ok p') :
    ∃ next, next.executor = q ∧ base.Extends p' (ts ++ [next]) := by
  obtain ⟨-, next, s', hnext, hfollow, rfl⟩ := modelExecutionOf_eq_ok.mp hmodel
  have hexec : next.executor = q := hkeyed q next hnext
  have hcontinues := h.continues.trans (StateSequence.continues_follow hfollow)
  refine ⟨next, hexec, ?_, hcontinues.runners, hcontinues.elements, hcontinues.objects,
    hcontinues.histories, fun r => ?_⟩
  · rw [h.trace, List.append_assoc]
  · -- what `q` was about to do is what it has just done
    rw [h.pending r, lookup_insert, List.find?_append, Option.or_assoc]
    congr 1
    by_cases hr : q = r
    · subst hr
      simp [hexec, hnext]
    · simp [hexec, hr]

theorem Extends.consumeIntoSubsequence (h : base.Extends p ts) (hbase : base.InStep)
    (hp : p.InStep) (hts : ts = [] → base = p) :
    p.stateSeq.consumeIntoSubsequence (base.trace.length + 1) = (base.stateSeq, .ok ()) := by
  rw [← hbase.length]
  refine h.continues.consumeIntoSubsequence hbase.settled fun hlength => ?_
  have htrace : p.trace.length = base.trace.length := by
    rw [← hp.length, hlength, hbase.length]
  rw [h.trace, List.length_append] at htrace
  rw [hts (List.eq_nil_of_length_eq_zero (by omega))]

/-- Going back restores the states and the trace. -/
theorem Extends.restoreModelAtDepth_eq (h : base.Extends p ts) (hbase : base.InStep)
    (hp : p.InStep) (hts : ts = [] → base = p) :
    p.restoreModelAtDepth base.trace.length =
      (⟨base.stateSeq, base.trace, p.restoredSteps base.trace.length⟩, .ok ()) := by
  have htake : p.trace.take base.trace.length = base.trace := by
    rw [h.trace]
    simp
  simp only [Program.restoreModelAtDepth, htake, h.consumeIntoSubsequence hbase hp hts]

/-- **Going back restores the program**, unless it takes a trace back to depth `0`. -/
theorem Extends.restoreModelAtDepth (h : base.Extends p ts) (hbase : base.InStep) (hp : p.InStep)
    (hts : ts = [] → base = p) (hdepth : 1 ≤ base.trace.length ∨ p.trace = []) :
    p.restoreModelAtDepth base.trace.length = (base, .ok ()) := by
  have hsteps : p.restoredSteps base.trace.length = base.nextSteps := by
    refine Finmap.ext_lookup fun q => ?_
    rw [Program.restoredSteps_lookup _ hdepth, h.pending q, h.trace]
    simp
  rw [h.restoreModelAtDepth_eq hbase hp hts, hsteps]

end Program

end McMini
