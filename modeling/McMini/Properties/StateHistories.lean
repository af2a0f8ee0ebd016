import McMini.Model.StoredSequence
import McMini.Properties.Backtracking

/-!
# The history of states is the fold of the trace

A state sequence is a collection of views into histories which are appended to and cut, and the
condition variables in these histories share policies. Still, whatever is followed, checked and
taken back: the states of the sequence are those which the transitions that were followed and not
taken back lead through, one after the other (`history_is_fold`).

A sequence of values is determined by these transitions (`runFrom followStep`), since going back
gives the sequence as it was then. A stored sequence remains such a sequence of values, since no
policy is changed once it is part of a state.
-/

namespace McMini

open Foundation

/-- The state, as what it answers when it is queried. -/
def DetachedState.toState (d : DetachedState) : State where
  objectState i := d.visibleObjects[i]?
  objidForRunner := d.runnerToObjMap.lookup
  objidForRunner_injective := fun hp hq => InjectiveFunction.lookup_injective hp hq

namespace StateSequence

variable {q q₀ q' : StateSequence} {pre post : List Transition}

/-! ### Sequences of values -/

/-- A sequence constructed from a state represents the state. -/
theorem toState_ofDetachedState (d : DetachedState) : (ofDetachedState d).toState = d.toState := by
  have hobjects : ∀ objects : List VisibleObjectState,
      (objects.foldl (fun s o => (s.addObject o).1) empty).visibleObjects =
        objects.map VisibleObject.ofState := by
    intro objects
    induction objects using List.reverseRecOn with
    | nil => rfl
    | append_singleton objects o ih =>
      rw [List.foldl_append, List.map_append, ← ih]
      rfl
  have hsettled := settled_ofDetachedState d
  ext : 1
  · funext i
    have hvisible : (ofDetachedState d).visibleObjects = d.visibleObjects.map VisibleObject.ofState :=
      hobjects d.visibleObjects
    rw [hsettled.current.objectState, hvisible, List.getElem?_map, Option.map_map]
    show (d.visibleObjects[i]?).map id = d.visibleObjects[i]?
    rw [Option.map_id_fun, id]
  · funext p
    have hcond : ((ofDetachedState d).containsRunnerWithIdAt (ofDetachedState d).representative p =
        true) ↔ (d.runnerToObjMap.lookup p).isSome := by
      show (decide (p < d.runnerToObjMap.size) && (d.runnerToObjMap.lookup p).isSome) = true ↔ _
      rw [Bool.and_eq_true, decide_eq_true_eq, and_iff_right_iff_imp]
      intro hp
      -- the runners are numbered consecutively
      have hmem : p ∈ d.runnerToObjMap.forward.keys :=
        Finmap.mem_keys.mpr (Finmap.lookup_isSome.mp hp)
      rw [d.keys_eq_range] at hmem
      exact Finset.mem_range.mp hmem
    show (ofDetachedState d).getObjidForRunnerAt _ p = d.runnerToObjMap.lookup p
    rw [getObjidForRunnerAt]
    split_ifs with hp
    · rfl
    · exact (Option.not_isSome_iff_eq_none.mp fun h => hp (hcond.mpr h)).symm

/-- A transition which does not exist leaves the sequence as it is. -/
theorem follow_not_exists {t : Transition} {result : Except Failure Status}
    (h : q.follow t = (q', result)) (hresult : result ≠ .ok .exists') : q' = q := by
  unfold StateSequence.follow at h
  generalize t.applyTo q.toState = applied at h
  rcases applied with e | ⟨d, _ | _ | _⟩
  · exact (Prod.mk.inj h).1.symm
  · exact absurd (Prod.mk.inj h).2.symm hresult
  · exact (Prod.mk.inj h).1.symm
  · exact (Prod.mk.inj h).1.symm

/-- What following transitions keeps, and how long the sequence gets. -/
theorem of_followed (h : q₀.Settled) (hq : runFrom followStep q₀ post = some q) :
    q.Settled ∧ q₀.Continues q ∧ q.earlier.length = q₀.earlier.length + post.length := by
  refine runFrom_induction
    (P := fun tr q => q.Settled ∧ q₀.Continues q ∧ q.earlier.length = q₀.earlier.length + tr.length)
    ⟨h, Continues.refl q₀, rfl⟩ ?_ hq
  rintro tr q t q' - ⟨hsettled, hcontinues, hlength⟩ hstep
  have hfollow := followStep_eq_some_iff.mp hstep
  refine ⟨hsettled.follow hfollow, hcontinues.trans (continues_follow hfollow), ?_⟩
  rw [follow_exists_earlier hfollow, List.length_append, List.length_append, hlength]
  rfl

/-- Going back takes out the transitions which were followed last. -/
theorem consume_followed (h : q₀.Settled) (hearlier : q₀.earlier = []) {tr : List Transition}
    (hq : runFrom followStep q₀ tr = some q) {m : ℕ} (hm : 1 ≤ m) :
    ∃ b, runFrom followStep q₀ (tr.take (m - 1)) = some b ∧
      q.consumeIntoSubsequence m = (b, .ok ()) := by
  have hsplit : runFrom followStep q₀ (tr.take (m - 1) ++ tr.drop (m - 1)) = some q := by
    rwa [List.take_append_drop]
  obtain ⟨b, hb, hrest⟩ := runFrom_append_eq_some.mp hsplit
  refine ⟨b, hb, ?_⟩
  obtain ⟨hbsettled, -, hblength⟩ := of_followed h hb
  obtain ⟨-, hcontinues, hlength⟩ := of_followed hbsettled hrest
  rw [hearlier, List.length_nil, Nat.zero_add] at hblength
  by_cases hcut : m ≤ tr.length
  · have hm' : m = b.earlier.length + 1 := by
      rw [hblength, List.length_take]
      omega
    rw [hm']
    refine hcontinues.consumeIntoSubsequence hbsettled fun hsame => ?_
    rw [List.length_drop] at hlength
    omega
  · -- there is nothing to take back
    have hdrop : tr.drop (m - 1) = [] := List.drop_eq_nil_of_le (by omega)
    rw [hdrop, runFrom_nil, Option.some.injEq] at hrest
    subst hrest
    unfold StateSequence.consumeIntoSubsequence
    rw [if_pos]
    rw [StateSequence.statesInSequence, List.length_append, hblength, List.length_take]
    show min (m - 1) tr.length + 1 ≤ m
    omega

/-- The states of a sequence are those which the transitions it has followed lead through. -/
theorem stateAt_followed (h : q₀.Settled) (hearlier : q₀.earlier = []) {tr : List Transition}
    (hq : runFrom followStep q₀ tr = some q) {i : ℕ} (hi : i ≤ tr.length) :
    ∃ e, q.statesInSequence[i]? = some e ∧
      run q₀.toState (tr.take i) = some (q.stateAt e) := by
  have hsplit : runFrom followStep q₀ (tr.take i ++ tr.drop i) = some q := by
    rwa [List.take_append_drop]
  obtain ⟨b, hb, hrest⟩ := runFrom_append_eq_some.mp hsplit
  obtain ⟨hbsettled, -, hblength⟩ := of_followed h hb
  obtain ⟨-, hcontinues, -⟩ := of_followed hbsettled hrest
  rw [hearlier, List.length_nil, Nat.zero_add, List.length_take, min_eq_left hi] at hblength
  have hlast : b.statesInSequence[i]? = some b.representative := by
    rw [StateSequence.statesInSequence, ← hblength]
    simp
  obtain ⟨rest, hrest'⟩ := hcontinues.elements
  refine ⟨b.representative, ?_, ?_⟩
  · rw [← hrest', List.getElem?_append_left (List.getElem?_eq_some_iff.mp hlast).1, hlast]
  · rw [hcontinues.stateAt hbsettled.consistent b.representative_mem]
    exact (followAll_refines h.current hb).1

end StateSequence

/-! ### Stored sequences -/

theorem StoredObjectState.Reads.optionUnique {cells : PolicyMemory} {o : Option StoredObjectState}
    {v v' : Option VisibleObjectState} (h : Option.Rel (StoredObjectState.Reads cells) o v)
    (h' : Option.Rel (StoredObjectState.Reads cells) o v') : v = v' := by
  cases h with
  | none =>
    cases h'
    rfl
  | some ho =>
    cases h' with
    | some ho' => rw [ho.unique ho']

/-- A stored state is only one state. -/
theorem StoredState.Reads.unique {cells : PolicyMemory} {s : StoredState} {u u' : State}
    (h : s.Reads cells u) (h' : s.Reads cells u') : u = u' := by
  ext : 1
  · funext i
    exact StoredObjectState.Reads.optionUnique (h.objectState i) (h'.objectState i)
  · exact h.objidForRunner.symm.trans h'.objidForRunner

namespace StoredSequence

/-- `state_at(i)`, where there is such a state. -/
def stateAtDepth (s : StoredSequence) (i : ℕ) : Option StoredState :=
  (s.statesInSequence[i]?).map s.stateAt

/-- What can be done with a sequence. A check for being enabled is made in one of its states. -/
inductive Call
  | follow (t : Transition)
  | consumeIntoSubsequence (numStates : ℕ)
  | isEnabledIn (t : Transition) (i : ℕ)

/-- The whole sequence is never taken back. -/
def Call.Admissible : Call → Prop
  | .consumeIntoSubsequence numStates => 1 ≤ numStates
  | _ => True

/-- A sequence, the policies of the process, and the transitions which followed with status
`exists` and were not cut off since. -/
structure Progress where
  sequence : StoredSequence
  cells : PolicyMemory
  followed : List Transition

def Progress.follow (r : Progress) (t : Transition) : Progress :=
  match r.sequence.follow t r.cells with
  | ((s, .ok .exists'), cells) => ⟨s, cells, r.followed ++ [t]⟩
  | ((s, _), cells) => ⟨s, cells, r.followed⟩

def Progress.isEnabledIn (r : Progress) (t : Transition) (i : ℕ) : Progress :=
  match r.sequence.stateAtDepth i with
  | some u => { r with cells := ((Stored.isEnabledIn t u).run r.cells).2 }
  | none => r

def Call.apply (c : Call) (r : Progress) : Progress :=
  match c with
  | .follow t => r.follow t
  | .consumeIntoSubsequence numStates =>
    ⟨(r.sequence.consumeIntoSubsequence numStates).1, r.cells, r.followed.take (numStates - 1)⟩
  | .isEnabledIn t i => r.isEnabledIn t i

/-- Constructs a sequence from the state `d` and makes the calls, one after the other. -/
def applyAll (d : StoredDetachedState) (cells : PolicyMemory) (calls : List Call) : Progress :=
  calls.foldl (fun r c => c.apply r) ⟨ofDetachedState d, cells, []⟩

/-- The stored sequence is the sequence of values which has followed the same transitions. -/
def Progress.Reflects (d : DetachedState) (r : Progress) : Prop :=
  ∃ q, runFrom StateSequence.followStep (StateSequence.ofDetachedState d) r.followed = some q ∧
    r.sequence.Reads r.cells q

variable {d : DetachedState} {r : Progress} {c : Call}

theorem Progress.Reflects.follow (h : r.Reflects d) (t : Transition) : (r.follow t).Reflects d := by
  obtain ⟨q, hq, hreads⟩ := h
  obtain ⟨-, hreads', hresult⟩ := hreads.follow t
  unfold Progress.follow
  generalize r.sequence.follow t r.cells = outcome at hreads' hresult ⊢
  obtain ⟨⟨s, result⟩, cells⟩ := outcome
  rcases hvalue : q.follow t with ⟨q', result'⟩
  rw [hvalue] at hreads' hresult
  obtain rfl : result = result' := hresult
  by_cases hexists : result = .ok .exists'
  · subst hexists
    refine ⟨q', ?_, hreads'⟩
    exact runFrom_concat_eq_some.mpr ⟨q, hq, StateSequence.followStep_eq_some_iff.mpr hvalue⟩
  · have hq' : q' = q := StateSequence.follow_not_exists hvalue hexists
    rcases result with _ | _ | _ | _
    · exact ⟨q, hq, hq' ▸ hreads'⟩
    · exact absurd rfl hexists
    · exact ⟨q, hq, hq' ▸ hreads'⟩
    · exact ⟨q, hq, hq' ▸ hreads'⟩

theorem Progress.Reflects.isEnabledIn (h : r.Reflects d) (t : Transition) (i : ℕ) :
    (r.isEnabledIn t i).Reflects d := by
  obtain ⟨q, hq, hreads⟩ := h
  unfold Progress.isEnabledIn stateAtDepth
  cases r.sequence.statesInSequence[i]? with
  | none => exact ⟨q, hq, hreads⟩
  | some e => exact ⟨q, hq, hreads.mono (hreads.isEnabledIn t e)⟩

theorem Progress.Reflects.apply (h : r.Reflects d) (hc : c.Admissible) :
    (c.apply r).Reflects d := by
  cases c with
  | follow t => exact h.follow t
  | isEnabledIn t i => exact h.isEnabledIn t i
  | consumeIntoSubsequence m =>
    obtain ⟨q, hq, hreads⟩ := h
    obtain ⟨b, hb, hconsume⟩ := StateSequence.consume_followed
      (StateSequence.settled_ofDetachedState d) (StateSequence.ofDetachedState_earlier d) hq hc
    obtain ⟨hreads', -⟩ := hreads.consumeIntoSubsequence m
    rw [hconsume] at hreads'
    exact ⟨b, hb, hreads'⟩

/-- The states of the sequence are those which the transitions it has followed lead through from
`s₀`, also read through the memory as it is now; the last of them is the current one; and a
transition which does not follow leaves each of them as it is. -/
structure Progress.IsFold (s₀ : State) (r : Progress) : Prop where
  length : r.sequence.statesInSequence.length = r.followed.length + 1
  states : ∀ i ≤ r.followed.length, ∃ stored u, r.sequence.stateAtDepth i = some stored ∧
    run s₀ (r.followed.take i) = some u ∧ stored.Reads r.cells u
  current : r.sequence.stateAtDepth r.followed.length = some r.sequence.toState
  unchanged : ∀ t s result cells, r.sequence.follow t r.cells = ((s, result), cells) →
    result ≠ .ok .exists' → s = r.sequence ∧
      ∀ i stored u, r.sequence.stateAtDepth i = some stored → stored.Reads r.cells u →
        stored.Reads cells u

/-- A transition which does not follow leaves the stored sequence as it is, too. -/
theorem follow_not_exists {s s' : StoredSequence} {t : Transition} {cells cells' : PolicyMemory}
    {result : Except Failure Status} (h : s.follow t cells = ((s', result), cells'))
    (hresult : result ≠ .ok .exists') : s' = s := by
  unfold StoredSequence.follow at h
  generalize (Stored.applyTo t s.toState).run cells = applied at h
  obtain ⟨e | ⟨d, _ | _ | _⟩, cells''⟩ := applied
  · exact (Prod.mk.inj (Prod.mk.inj h).1).1.symm
  · exact absurd (Prod.mk.inj (Prod.mk.inj h).1).2.symm hresult
  · exact (Prod.mk.inj (Prod.mk.inj h).1).1.symm
  · exact (Prod.mk.inj (Prod.mk.inj h).1).1.symm

theorem Progress.Reflects.isFold (h : r.Reflects d) : r.IsFold d.toState := by
  obtain ⟨q, hq, hreads⟩ := h
  have hsettled := StateSequence.settled_ofDetachedState d
  have hearlier := StateSequence.ofDetachedState_earlier d
  obtain ⟨-, -, hlength⟩ := StateSequence.of_followed hsettled hq
  rw [hearlier, List.length_nil, Nat.zero_add] at hlength
  refine ⟨?_, fun i hi => ?_, ?_, fun t s result cells hfollow hresult => ?_⟩
  · rw [hreads.statesInSequence, StateSequence.statesInSequence, List.length_append, hlength]
    rfl
  · obtain ⟨e, he, hrun⟩ := StateSequence.stateAt_followed hsettled hearlier hq hi
    refine ⟨r.sequence.stateAt e, q.stateAt e, ?_, ?_, hreads.stateAt e⟩
    · rw [stateAtDepth, hreads.statesInSequence, he, Option.map_some]
    · rw [← StateSequence.toState_ofDetachedState]
      exact hrun
  · rw [stateAtDepth, statesInSequence, hreads.earlier, ← hlength]
    simp [toState]
  · obtain rfl := follow_not_exists hfollow hresult
    have hcells := (hreads.follow t).1
    rw [hfollow] at hcells
    exact ⟨rfl, fun _ _ _ _ hstored => hstored.mono hcells⟩

/-- **The history of states is the fold of the trace.** -/
theorem history_is_fold {d : StoredDetachedState} {d' : DetachedState} {cells : PolicyMemory}
    (hd : d.Reads cells d') {calls : List Call} (hcalls : ∀ c ∈ calls, c.Admissible) :
    (applyAll d cells calls).IsFold d'.toState := by
  have hreflects : (applyAll d cells calls).Reflects d' := by
    induction calls using List.reverseRecOn with
    | nil => exact ⟨_, rfl, reads_ofDetachedState hd⟩
    | append_singleton calls c ih =>
      rw [applyAll, List.foldl_append]
      exact (ih fun c hc => hcalls c (List.mem_append_left _ hc)).apply
        (hcalls c (List.mem_append_right _ (List.mem_singleton_self c)))
  exact hreflects.isFold

/-- The main thread holds a mutex; there is a condition variable. -/
private def holdingMutex : StoredDetachedState where
  visibleObjects := [.thread ⟨.running⟩, .mutex ⟨.locked, 100, 0⟩,
    .conditionVariable ⟨.initialized, 0, ridInvalid, 0, 0, ⟨0⟩⟩]
  runnerToObjMap := DetachedState.atMain.runnerToObjMap
  keys_eq_range := DetachedState.atMain.keys_eq_range
  lookup_lt h := (DetachedState.atMain.lookup_lt h).trans (by decide)

private def holdingMutexValue : DetachedState where
  visibleObjects := [.thread ⟨.running⟩, .mutex ⟨.locked, 100, 0⟩,
    .conditionVariable { currentState := .initialized }]
  runnerToObjMap := DetachedState.atMain.runnerToObjMap
  keys_eq_range := DetachedState.atMain.keys_eq_range
  lookup_lt h := (DetachedState.atMain.lookup_lt h).trans (by decide)

/-- The thread falls asleep and is signaled, it is checked whether it can wake up, and the signal
is taken back. -/
private def signalTakenBack : List Call :=
  [.follow ⟨0, .conditionVariableEnqueueThread 2 1⟩, .follow ⟨0, .conditionVariableSignal 2⟩,
    .isEnabledIn ⟨0, .conditionVariableWait 2 1⟩ 2, .consumeIntoSubsequence 2]

theorem history_is_fold_signalTakenBack :
    (applyAll holdingMutex [emptyPolicy] signalTakenBack).followed =
        [⟨0, .conditionVariableEnqueueThread 2 1⟩] ∧
      (applyAll holdingMutex [emptyPolicy] signalTakenBack).IsFold holdingMutexValue.toState := by
  refine ⟨by rfl, history_is_fold ⟨?_, rfl⟩ fun c hc => ?_⟩
  · exact .cons (.thread _) (.cons (.mutex _) (.cons (.conditionVariable ⟨rfl, rfl⟩) .nil))
  · simp only [signalTakenBack, List.mem_cons, List.not_mem_nil, or_false] at hc
    rcases hc with rfl | rfl | rfl | rfl
    · trivial
    · trivial
    · trivial
    · show 1 ≤ 2
      decide

end StoredSequence

end McMini
