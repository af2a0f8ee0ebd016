import McMini.Foundation.Ownership
import McMini.Model.Program

/-!
# Who owns the transitions

The trace and the pending transitions are containers of pointers, and both delete what they hold:
the trace when it is cut, the pending transitions when one takes the place of another. Executing
a transition hands it from the pending ones to the trace, and going back hands transitions of the
trace back, leaving null pointers behind in the part which is then cut off.

`OwningProgram` is `Program` with these containers. Reading through a pointer which is null or
whose transition has been deleted fails, and so does deleting a transition again.
-/

namespace McMini

open Foundation

/-- A program as it lies in memory, with the transitions which have been allocated. -/
structure OwningProgram where
  stateSeq : StateSequence
  transitions : Heap Transition
  trace : List (Option ℕ)
  nextSteps : Finmap fun _ : RunnerId => ℕ

/-- Where a pointer to a transition is kept. -/
inductive TransitionPlace
  | trace (i : ℕ)
  | nextSteps (q : RunnerId)
  deriving DecidableEq

namespace OwningProgram

variable (o : OwningProgram)

/-- The pointer in a place. -/
def place : TransitionPlace → Option ℕ
  | .trace i => (o.trace[i]?).join
  | .nextSteps q => o.nextSteps.lookup q

/-- The transition a pointer points to. -/
def deref (pointer : Option ℕ) : Except Failure Transition :=
  match pointer.bind o.transitions.lookup with
  | some t => .ok t
  | none => .error (.undefinedBehavior "no transition at this address")

/-- `delete`. -/
def delete (pointer : Option ℕ) : Except Failure OwningProgram :=
  match o.transitions.free pointer with
  | some transitions => .ok { o with transitions }
  | none => .error (.undefinedBehavior "deleted twice")

/-- `pending_transitions::set_transition`: the transition it replaces is deleted. -/
def setTransition (newTransition : ℕ) : Except Failure OwningProgram := do
  let t ← o.deref newTransition
  let oldTransition := o.nextSteps.lookup t.executor
  let o := { o with nextSteps := o.nextSteps.insert t.executor newTransition }
  o.delete oldTransition

/-- `transition_sequence::extract_at` leaves a null pointer behind. -/
def extractAt (i : ℕ) : Except Failure (OwningProgram × Option ℕ) :=
  match o.trace[i]? with
  | some pointer => .ok ({ o with trace := o.trace.set i none }, pointer)
  | none => .error .outOfRange

/-- `transition_sequence::consume_into_subsequence` deletes what it cuts off. -/
def consumeIntoSubsequence (depth : ℕ) : Except Failure OwningProgram :=
  if depth ≤ o.trace.length then
    match (o.trace.drop depth).foldlM Heap.free o.transitions with
    | some transitions => .ok { o with transitions, trace := o.trace.take depth }
    | none => .error (.undefinedBehavior "deleted twice")
  else .ok o

/-- `program::model_execution_of`. The caller has allocated the next operation. -/
def modelExecutionOf (runner : RunnerId) (npo : ℕ) : Except Failure OwningProgram := do
  let t ← o.deref npo
  -- the transition which is pending for the runner, if there is one
  let next ← (o.nextSteps.lookup runner).mapM fun pointer => o.deref pointer
  let nextSteps : Finmap fun _ : RunnerId => Transition :=
    next.elim ∅ fun u => Finmap.singleton runner u
  let program ← Program.modelExecutionOf ⟨o.stateSeq, [], nextSteps⟩ runner t
  return { o with
    stateSeq := program.stateSeq
    trace := o.trace ++ [o.nextSteps.lookup runner]
    nextSteps := o.nextSteps.insert t.executor npo }

/-- The loop over the trace, which reads the executors through the pointers. -/
def runnerToIndexFromTop (lo : ℕ) :
    ℕ → (AList fun _ : RunnerId => ℕ) → Except Failure (AList fun _ : RunnerId => ℕ)
  | 0, indices => .ok indices
  | k + 1, indices =>
    if lo < k then do
      let t ← o.deref (o.place (.trace k))
      runnerToIndexFromTop lo k (indices.insert t.executor k)
    else .ok indices

/-- `next_steps.set_transition(trace.extract_at(i).release())`. -/
def handBack (i : ℕ) : Except Failure OwningProgram := do
  let (o, pointer) ← o.extractAt i
  match pointer with
  | some pointer => o.setTransition pointer
  | none => throw (.undefinedBehavior "set_transition(nullptr)")

/-- `program::restore_model_at_depth`. -/
def restoreModelAtDepth (n : ℕ) : Except Failure OwningProgram := do
  let runnerToIndex ← o.runnerToIndexFromTop (uint32Pred n) o.trace.length ∅
  let o ← runnerToIndex.entries.foldlM (fun o e => o.handBack e.2) o
  let o ← o.consumeIntoSubsequence n
  match o.stateSeq.consumeIntoSubsequence (n + 1) with
  | (stateSeq, .ok ()) => return { o with stateSeq }
  | (_, .error e) => throw e

/-! ### Reading through pointers -/

/-- The transition a place points to. -/
abbrev transitionAt : TransitionPlace → Option Transition := held o.transitions o.place

/-- Every transition which has been allocated is owned by one place of the trace or of the pending
transitions, and these point to nothing else. -/
abbrev Owned : Prop := OwnedOnce o.transitions o.place

/-- The program in memory is `p`. -/
structure Represents (p : Program) : Prop where
  owned : o.Owned
  stateSeq : o.stateSeq = p.stateSeq
  length : o.trace.length = p.trace.length
  trace : ∀ i, o.transitionAt (.trace i) = p.trace[i]?
  nextSteps : ∀ q, o.transitionAt (.nextSteps q) = p.nextSteps.lookup q

variable {o o' : OwningProgram} {w : TransitionPlace} {t : Transition} {i n a : ℕ} {q : RunnerId}
  {p p' : Program}

theorem deref_place (h : o.transitionAt w = some t) : o.deref (o.place w) = .ok t := by
  have h' : (o.place w).bind o.transitions.lookup = some t := h
  simp only [deref, h']

theorem place_of_transitionAt (h : o.transitionAt w = some t) :
    ∃ a, o.place w = some a ∧ o.transitions.lookup a = some t := Option.bind_eq_some_iff.mp h

/-- The loop reads what the trace points to. -/
theorem runnerToIndexFromTop_eq {transitions : List Transition}
    (h : ∀ i, o.transitionAt (.trace i) = transitions[i]?) (lo : ℕ) {k : ℕ}
    (hk : k ≤ transitions.length) (indices : AList fun _ : RunnerId => ℕ) :
    o.runnerToIndexFromTop lo k indices =
      .ok (Program.runnerToIndexFromTop transitions lo k indices) := by
  induction k generalizing indices with
  | zero => rfl
  | succ k ih =>
    have ht : transitions[k]? = some transitions[k] := List.getElem?_eq_getElem hk
    rw [runnerToIndexFromTop, Program.runnerToIndexFromTop]
    by_cases hlo : lo < k
    · rw [if_pos hlo, if_pos hlo, deref_place ((h k).trans ht), ht]
      exact ih (Nat.le_of_succ_le hk) _
    · rw [if_neg hlo, if_neg hlo]

/-! ### Handing a transition back -/

/-- The transition at a position of the trace becomes the pending one of its executor, and the one
which was pending is deleted. -/
theorem handBack_eq (h : o.Owned) (ht : o.transitionAt (.trace i) = some t) :
    ∃ o', o.handBack i = .ok o' ∧ o'.Owned ∧ o'.stateSeq = o.stateSeq ∧
      o'.trace.length = o.trace.length ∧
      o'.transitionAt = Function.update (Function.update o.transitionAt (.trace i) none)
        (.nextSteps t.executor) (some t) := by
  obtain ⟨a, ha, hlookup⟩ := place_of_transitionAt ht
  have hentry : o.trace[i]? = some (some a) := Option.join_eq_some_iff.mp ha
  -- the pending transition is deleted first, and its place is empty then
  obtain ⟨transitions, hfree, howned, hheld⟩ := h.free (.nextSteps t.executor)
  have ha' : Function.update o.place (.nextSteps t.executor) none (.trace i) = some a := by
    rw [Function.update_of_ne (by simp), ha]
  obtain ⟨howned', hheld'⟩ := howned.move ha' (Function.update_self ..)
  have hplace : (OwningProgram.mk o.stateSeq transitions (o.trace.set i none)
      (o.nextSteps.insert t.executor a)).place =
      Function.update (Function.update (Function.update o.place (.nextSteps t.executor) none)
        (.trace i) none) (.nextSteps t.executor) (some a) := by
    -- the entries of trace and pending map are the places which have been updated
    funext w
    cases w with
    | trace j =>
      rw [Function.update_of_ne (by simp), Function.update_apply, Function.update_of_ne (by simp)]
      show ((o.trace.set i none)[j]?).join = if TransitionPlace.trace j = .trace i then none else _
      rw [List.getElem?_set]
      by_cases hj : i = j
      · subst hj
        rw [if_pos rfl, if_pos rfl]
        split <;> rfl
      · rw [if_neg hj, if_neg (fun heq => hj (TransitionPlace.trace.inj heq).symm)]
        rfl
    | nextSteps r =>
      rw [Function.update_apply, Function.update_of_ne (by simp), Function.update_apply]
      show (o.nextSteps.insert t.executor a).lookup r = _
      rw [lookup_insert]
      by_cases hr : t.executor = r
      · rw [if_pos hr, if_pos (by rw [hr])]
      · have hne : TransitionPlace.nextSteps r ≠ .nextSteps t.executor :=
          fun heq => hr (TransitionPlace.nextSteps.inj heq).symm
        rw [if_neg hr, if_neg hne, if_neg hne]
        rfl
  refine ⟨⟨o.stateSeq, transitions, o.trace.set i none, o.nextSteps.insert t.executor a⟩, ?_, ?_,
    rfl, List.length_set, ?_⟩
  · have hfree' : o.transitions.free (o.nextSteps.lookup t.executor) = some transitions := hfree
    simp only [handBack, extractAt, hentry, setTransition, deref, delete, Option.bind_some, hlookup,
      bind, Except.bind, hfree']
  · show OwnedOnce _ (OwningProgram.place _)
    rw [hplace]
    exact howned'
  · show held _ (OwningProgram.place _) = _
    rw [hplace, hheld', hheld]
    funext w
    cases w with
    | trace j => simp [Function.update_apply]
    | nextSteps r => by_cases hr : r = t.executor <;> simp [hr, ht]

/-- The loop which hands transitions back, for positions of transitions of different runners. -/
theorem foldlM_handBack_eq {l : List (Sigma fun _ : RunnerId => ℕ)} (hl : l.NodupKeys)
    (h : o.Owned) (hkeyed : ∀ e ∈ l, ∃ t, o.transitionAt (.trace e.2) = some t ∧ t.executor = e.1) :
    ∃ o', l.foldlM (fun o e => o.handBack e.2) o = .ok o' ∧ o'.Owned ∧
      o'.stateSeq = o.stateSeq ∧ o'.trace.length = o.trace.length ∧
      (∀ i, (∀ e ∈ l, e.2 ≠ i) → o'.transitionAt (.trace i) = o.transitionAt (.trace i)) ∧
      ∀ q, o'.transitionAt (.nextSteps q) =
        ((l.dlookup q).bind fun i => o.transitionAt (.trace i)).or
          (o.transitionAt (.nextSteps q)) := by
  induction l generalizing o with
  | nil => exact ⟨o, rfl, h, rfl, rfl, fun _ _ => rfl, fun _ => rfl⟩
  | cons e l ih =>
    obtain ⟨he, hl⟩ := List.nodupKeys_cons.mp hl
    obtain ⟨t, ht, hexec⟩ := hkeyed e List.mem_cons_self
    obtain ⟨o₁, hrun, howned, hseq, hlength, hheld⟩ := handBack_eq h ht
    have htrace : ∀ i, i ≠ e.2 → o₁.transitionAt (.trace i) = o.transitionAt (.trace i) := by
      intro i hi
      rw [hheld, Function.update_of_ne (by simp),
        Function.update_of_ne fun heq => hi (TransitionPlace.trace.inj heq)]
    -- the runners are different, and so are the positions
    have hpositions : ∀ e' ∈ l, e'.2 ≠ e.2 := by
      intro e' he' heq
      obtain ⟨t', ht', hexec'⟩ := hkeyed e' (List.mem_cons_of_mem _ he')
      obtain rfl : t = t' := Option.some.inj (ht.symm.trans (heq ▸ ht'))
      exact he (List.mem_keys.mpr ⟨e'.2, hexec.symm.trans hexec' ▸ he'⟩)
    have hkeyed₁ : ∀ e' ∈ l, ∃ t, o₁.transitionAt (.trace e'.2) = some t ∧ t.executor = e'.1 := by
      intro e' he'
      rw [htrace _ (hpositions e' he')]
      exact hkeyed e' (List.mem_cons_of_mem _ he')
    obtain ⟨o', hrest, howned', hseq', hlength', htrace', hnext'⟩ := ih hl howned hkeyed₁
    refine ⟨o', ?_, howned', hseq'.trans hseq, hlength'.trans hlength, fun i hi => ?_, fun q => ?_⟩
    · rw [List.foldlM_cons, hrun]
      exact hrest
    · rw [htrace' i fun e' he' => hi e' (List.mem_cons_of_mem _ he'),
        htrace i (hi e List.mem_cons_self).symm]
    · obtain ⟨r, i⟩ := e
      obtain rfl : t.executor = r := hexec
      have hnone : l.dlookup t.executor = none := List.dlookup_eq_none.mpr he
      rw [hnext']
      by_cases hq : q = t.executor
      · subst hq
        rw [hnone, List.dlookup_cons_eq, hheld, Function.update_self, Option.bind_some, ht]
        rfl
      · rw [List.dlookup_cons_ne _ _ hq]
        have hsame : ∀ i', l.dlookup q = some i' →
            o₁.transitionAt (.trace i') = o.transitionAt (.trace i') := fun i' hi' =>
          htrace i' (hpositions ⟨q, i'⟩ (List.of_mem_dlookup hi'))
        have hbefore : o₁.transitionAt (.nextSteps q) = o.transitionAt (.nextSteps q) := by
          rw [hheld, Function.update_of_ne fun heq => hq (TransitionPlace.nextSteps.inj heq),
            Function.update_of_ne (by simp)]
        rw [hbefore]
        cases hi' : l.dlookup q with
        | none => rfl
        | some i' => rw [Option.bind_some, Option.bind_some, hsame i' hi']

/-! ### Cutting the trace -/

theorem drop_eq_map_place (o : OwningProgram) (n : ℕ) :
    o.trace.drop n =
      ((List.range' n (o.trace.length - n)).map TransitionPlace.trace).map o.place := by
  refine List.ext_getElem? fun k => ?_
  rw [List.getElem?_drop, List.map_map, List.getElem?_map]
  by_cases hk : n + k < o.trace.length
  · rw [List.getElem?_range' (by omega), List.getElem?_eq_getElem hk, Option.map_some,
      Function.comp_apply, Nat.one_mul, place, List.getElem?_eq_getElem hk]
    rfl
  · rw [List.getElem?_eq_none (by omega), List.getElem?_eq_none (by rw [List.length_range']; omega)]
    rfl

/-- Cutting the trace deletes what is still there behind the cut. -/
theorem consumeIntoSubsequence_eq (h : o.Owned) (hn : n ≤ o.trace.length) :
    ∃ o', o.consumeIntoSubsequence n = .ok o' ∧ o'.Owned ∧ o'.stateSeq = o.stateSeq ∧
      o'.trace.length = n ∧
      (∀ i, o'.transitionAt (.trace i) = if i < n then o.transitionAt (.trace i) else none) ∧
      ∀ q, o'.transitionAt (.nextSteps q) = o.transitionAt (.nextSteps q) := by
  have hnodup : ((List.range' n (o.trace.length - n)).map TransitionPlace.trace).Nodup :=
    List.Nodup.map (fun _ _ => TransitionPlace.trace.inj) List.nodup_range'
  -- the entries behind the cut are different places, so each of them is deleted once
  obtain ⟨transitions, hfree, howned, hheld⟩ := h.freeAll hnodup
  rw [← drop_eq_map_place] at hfree
  have hmem : ∀ i, TransitionPlace.trace i ∈
      (List.range' n (o.trace.length - n)).map TransitionPlace.trace ↔ n ≤ i ∧ i < o.trace.length := by
    intro i
    rw [List.mem_map]
    constructor
    · rintro ⟨j, hj, hji⟩
      obtain rfl := TransitionPlace.trace.inj hji
      rw [List.mem_range'_1] at hj
      omega
    · intro hi
      exact ⟨i, List.mem_range'_1.mpr (by omega), rfl⟩
  have hpending : ∀ q, TransitionPlace.nextSteps q ∉
      (List.range' n (o.trace.length - n)).map TransitionPlace.trace := by
    intro q hq
    obtain ⟨j, -, hj⟩ := List.mem_map.mp hq
    cases hj
  have hplace : (OwningProgram.mk o.stateSeq transitions (o.trace.take n) o.nextSteps).place =
      fun w => if w ∈ (List.range' n (o.trace.length - n)).map TransitionPlace.trace then none
        else o.place w := by
    funext w
    cases w with
    | trace i =>
      show ((o.trace.take n)[i]?).join = if _ then none else (o.trace[i]?).join
      rw [List.getElem?_take]
      by_cases hi : i < n
      · rw [if_pos hi, if_neg (fun hcut => absurd ((hmem i).mp hcut).1 (not_le.mpr hi))]
      · rw [if_neg hi]
        by_cases hlength : i < o.trace.length
        · rw [if_pos ((hmem i).mpr ⟨not_lt.mp hi, hlength⟩)]
          rfl
        · rw [List.getElem?_eq_none (not_lt.mp hlength), Option.join_none, ite_self]
    | nextSteps q =>
      rw [if_neg (hpending q)]
      rfl
  refine ⟨⟨o.stateSeq, transitions, o.trace.take n, o.nextSteps⟩, ?_, ?_, rfl, ?_, fun i => ?_,
    fun q => ?_⟩
  · rw [consumeIntoSubsequence, if_pos hn, hfree]
  · show OwnedOnce _ (OwningProgram.place _)
    rw [hplace]
    exact howned
  · rw [List.length_take, min_eq_left hn]
  · show held _ (OwningProgram.place _) _ = _
    rw [hplace, hheld]
    dsimp only
    by_cases hi : i < n
    · rw [if_pos hi, if_neg fun hcut => absurd ((hmem i).mp hcut).1 (not_le.mpr hi)]
    · rw [if_neg hi]
      by_cases hlength : i < o.trace.length
      · rw [if_pos ((hmem i).mpr ⟨not_lt.mp hi, hlength⟩)]
      · rw [if_neg fun hcut => hlength ((hmem i).mp hcut).2, held, place,
          List.getElem?_eq_none (not_lt.mp hlength)]
        rfl
  · show held _ (OwningProgram.place _) _ = _
    rw [hplace, hheld]
    dsimp only
    rw [if_neg (hpending q)]

/-! ### The program which is represented -/

/-- Going back in memory, up to the states: the transitions are those of the program which has gone
back. -/
theorem Represents.exists_restored (h : o.Represents p) (hn : n ≤ p.trace.length) :
    ∃ o₁ : OwningProgram,
      (∀ s', ({ o₁ with stateSeq := s' } : OwningProgram).Represents
        ⟨s', p.trace.take n, p.restoredSteps n⟩) ∧
      (∀ s', p.stateSeq.consumeIntoSubsequence (n + 1) = (s', .ok ()) →
        o.restoreModelAtDepth n = .ok { o₁ with stateSeq := s' }) ∧
      ∀ s' e, p.stateSeq.consumeIntoSubsequence (n + 1) = (s', .error e) →
        o.restoreModelAtDepth n = .error e := by
  set indices := Program.runnerToIndexFromTop p.trace (uint32Pred n) p.trace.length ∅ with hindices
  have hkeyed := Program.runnerToIndexFromTop_keyed p.trace (uint32Pred n)
  rw [← hindices] at hkeyed
  have hloop : o.runnerToIndexFromTop (uint32Pred n) o.trace.length ∅ = .ok indices := by
    rw [h.length]
    exact runnerToIndexFromTop_eq h.trace _ le_rfl _
  obtain ⟨o₁, hfold, howned, hseq, hlength, htrace, hnext⟩ :=
    foldlM_handBack_eq indices.nodupKeys h.owned fun e he => by
      rw [h.trace]
      exact (hkeyed e he).2
  obtain ⟨o₂, hconsume, howned', hseq', hlength', htrace', hnext'⟩ :=
    consumeIntoSubsequence_eq howned (n := n) (by rw [hlength, h.length]; exact hn)
  -- what has been handed back was behind the cut
  have hkept : ∀ i < n, ∀ e ∈ indices.entries, e.2 ≠ i := by
    intro i hi e he heq
    have hlo := (hkeyed e he).1
    have hpred : uint32Pred n = n - 1 := by rw [uint32Pred, if_neg (by omega)]
    omega
  have hstates : o₂.stateSeq = p.stateSeq := hseq'.trans (hseq.trans h.stateSeq)
  refine ⟨o₂, fun s' => ⟨howned', rfl, ?_, fun i => ?_, fun q => ?_⟩, fun s' hs' => ?_,
    fun s' e hs' => ?_⟩
  · rw [hlength', List.length_take, min_eq_left hn]
  · show o₂.transitionAt (.trace i) = (p.trace.take n)[i]?
    rw [htrace', List.getElem?_take]
    by_cases hi : i < n
    · rw [if_pos hi, if_pos hi, htrace i (hkept i hi), h.trace]
    · rw [if_neg hi, if_neg hi]
  · show o₂.transitionAt (.nextSteps q) = (p.restoredSteps n).lookup q
    rw [hnext', hnext, Program.restoredSteps_lookup_index, h.nextSteps, ← hindices]
    simp only [h.trace]
    rfl
  · rw [OwningProgram.restoreModelAtDepth]
    simp only [hloop, hfold, hconsume, hstates, hs', bind, Except.bind]
    rfl
  · rw [OwningProgram.restoreModelAtDepth]
    simp only [hloop, hfold, hconsume, hstates, hs', bind, Except.bind]
    rfl

/-- **Going back** in memory goes back in the program. -/
theorem Represents.restoreModelAtDepth (h : o.Represents p) (hn : n ≤ p.trace.length)
    (hrestore : p.restoreModelAtDepth n = (p', .ok ())) :
    ∃ o', o.restoreModelAtDepth n = .ok o' ∧ o'.Represents p' := by
  obtain ⟨o₁, hrepresents, hok, -⟩ := h.exists_restored hn
  unfold Program.restoreModelAtDepth at hrestore
  obtain ⟨rfl, hresult⟩ := Prod.mk.inj hrestore
  exact ⟨_, hok _ (Prod.ext rfl hresult), hrepresents _⟩

/-- What has gone back in memory represents a program. -/
theorem Represents.of_restoreModelAtDepth (h : o.Represents p) (hn : n ≤ p.trace.length)
    (hrun : o.restoreModelAtDepth n = .ok o') : ∃ p', o'.Represents p' := by
  obtain ⟨o₁, hrepresents, hok, herror⟩ := h.exists_restored hn
  rcases hs : p.stateSeq.consumeIntoSubsequence (n + 1) with ⟨s', e | u⟩
  · cases (herror s' e hs).symm.trans hrun
  · obtain rfl := Except.ok.inj ((hok s' hs).symm.trans hrun)
    exact ⟨_, hrepresents s'⟩

/-- The pending transition of the runner is handed over to the trace, and another one takes its
place. -/
theorem Represents.handOver (h : o.Represents p) (hnext : p.nextSteps.lookup q = some t) {u : Transition}
    (hfresh : a ∉ o.transitions) (s' : StateSequence) :
    (OwningProgram.mk s' (o.transitions.insert a u) (o.trace ++ [o.nextSteps.lookup q])
      (o.nextSteps.insert q a)).Represents ⟨s', p.trace ++ [t], p.nextSteps.insert q u⟩ := by
  have hpending : o.transitionAt (.nextSteps q) = some t := (h.nextSteps q).trans hnext
  obtain ⟨b, hb, -⟩ := place_of_transitionAt hpending
  have hlast : o.place (.trace o.trace.length) = none := by
    rw [place, List.getElem?_eq_none le_rfl, Option.join_none]
  -- first the pointer goes to the end of the trace, where nothing has been
  obtain ⟨howned, hheld⟩ := h.owned.move hb hlast
  have hempty : Function.update (Function.update o.place (.nextSteps q) none)
      (.trace o.trace.length) (some b) (.nextSteps q) = none := by
    rw [Function.update_of_ne (by simp), Function.update_self]
  -- then the new transition takes the place which is empty
  obtain ⟨howned', hheld'⟩ := howned.alloc (v := u) hfresh hempty
  have hplace : (OwningProgram.mk s' (o.transitions.insert a u)
      (o.trace ++ [o.nextSteps.lookup q]) (o.nextSteps.insert q a)).place =
      Function.update (Function.update (Function.update o.place (.nextSteps q) none)
        (.trace o.trace.length) (some b)) (.nextSteps q) (some a) := by
    funext w
    cases w with
    | trace i =>
      rw [Function.update_of_ne (by simp), Function.update_apply, Function.update_of_ne (by simp)]
      show ((o.trace ++ [o.nextSteps.lookup q])[i]?).join = _
      have hb' : o.nextSteps.lookup q = some b := hb
      rcases lt_trichotomy i o.trace.length with hi | rfl | hi
      · rw [List.getElem?_append_left hi,
          if_neg fun heq => hi.ne (TransitionPlace.trace.inj heq)]
        rfl
      · rw [List.getElem?_concat_length, if_pos rfl, hb']
        rfl
      · rw [List.getElem?_eq_none (by rw [List.length_append, List.length_singleton]; omega),
          if_neg fun heq => hi.ne' (TransitionPlace.trace.inj heq), place,
          List.getElem?_eq_none hi.le]
    | nextSteps r =>
      rw [Function.update_apply, Function.update_of_ne (by simp), Function.update_apply]
      show (o.nextSteps.insert q a).lookup r = _
      rw [lookup_insert]
      by_cases hr : q = r
      · rw [if_pos hr, if_pos (by rw [hr])]
      · have hne : TransitionPlace.nextSteps r ≠ .nextSteps q :=
          fun heq => hr (TransitionPlace.nextSteps.inj heq).symm
        rw [if_neg hr, if_neg hne, if_neg hne]
        rfl
  refine ⟨?_, rfl, ?_, fun i => ?_, fun r => ?_⟩
  · show OwnedOnce _ (OwningProgram.place _)
    rw [hplace]
    exact howned'
  · rw [List.length_append, List.length_append, h.length]
    rfl
  · show held _ (OwningProgram.place _) _ = (p.trace ++ [t])[i]?
    rw [hplace, hheld', Function.update_of_ne (by simp), hheld]
    rcases lt_trichotomy i o.trace.length with hi | rfl | hi
    · rw [Function.update_of_ne fun heq => hi.ne (TransitionPlace.trace.inj heq),
        Function.update_of_ne (by simp), List.getElem?_append_left (h.length ▸ hi)]
      exact h.trace i
    · rw [Function.update_self, h.length, List.getElem?_concat_length]
      exact hpending
    · rw [Function.update_of_ne fun heq => hi.ne' (TransitionPlace.trace.inj heq),
        Function.update_of_ne (by simp),
        List.getElem?_eq_none (by rw [List.length_append, List.length_singleton, ← h.length]; omega)]
      exact (h.trace i).trans (List.getElem?_eq_none (h.length ▸ hi.le))
  · show held _ (OwningProgram.place _) _ = (p.nextSteps.insert q u).lookup r
    rw [hplace, hheld', lookup_insert]
    by_cases hr : q = r
    · subst hr
      rw [Function.update_self, if_pos rfl]
    · have hne : TransitionPlace.nextSteps r ≠ .nextSteps q :=
        fun heq => hr (TransitionPlace.nextSteps.inj heq).symm
      rw [Function.update_of_ne hne, hheld, Function.update_of_ne (by simp),
        Function.update_of_ne hne, if_neg hr]
      exact h.nextSteps r

/-- **Executing a transition** in memory executes it in the program. The caller has allocated the
transition which is pending next. -/
theorem Represents.modelExecutionOf (h : o.Represents p) (hfresh : a ∉ o.transitions)
    (hrun : ({ o with transitions := o.transitions.insert a t } : OwningProgram).modelExecutionOf
      q a = .ok o') : ∃ p', p.modelExecutionOf q t = .ok p' ∧ o'.Represents p' := by
  unfold OwningProgram.modelExecutionOf at hrun
  obtain ⟨t', ht', hrun⟩ := bind_eq_ok.mp hrun
  have hderef : ({ o with transitions := o.transitions.insert a t } : OwningProgram).deref
      (some a) = .ok t := by
    simp only [deref, Option.bind_some, Finmap.lookup_insert]
  obtain rfl : t = t' := Except.ok.inj (hderef.symm.trans ht')
  obtain ⟨next, hnext, hrun⟩ := bind_eq_ok.mp hrun
  obtain ⟨program, hprogram, hrun⟩ := bind_eq_ok.mp hrun
  obtain rfl := Except.ok.inj hrun
  obtain ⟨hexec, u, s', hu, hfollow, rfl⟩ := modelExecutionOf_eq_ok.mp hprogram
  -- the runner has a transition pending, which is not the one that has just been allocated
  cases hpointer : o.nextSteps.lookup q with
  | none =>
    rw [hpointer] at hnext
    obtain rfl := Except.ok.inj hnext
    cases hu
  | some b =>
    have hplace : o.place (.nextSteps q) = some b := hpointer
    obtain ⟨v, hv, hheld⟩ := h.owned.held_isSome hplace
    have hne : b ≠ a := by
      rintro rfl
      exact hfresh (Finmap.mem_of_lookup_eq_some hv)
    rw [hpointer] at hnext
    have hderef' : ({ o with transitions := o.transitions.insert a t } : OwningProgram).deref
        (some b) = .ok v := by
      simp only [deref, Option.bind_some, Finmap.lookup_insert_of_ne _ hne, hv]
    have hmap : (some b).mapM (fun pointer =>
        ({ o with transitions := o.transitions.insert a t } : OwningProgram).deref pointer) =
        .ok (some v) := by
      show (({ o with transitions := o.transitions.insert a t } : OwningProgram).deref
        (some b) >>= fun v => pure (some v)) = _
      rw [hderef']
      rfl
    obtain rfl := Except.ok.inj (hmap.symm.trans hnext)
    obtain rfl : v = u := by
      have hsingle : (Finmap.singleton q v : Finmap fun _ : RunnerId => Transition).lookup q =
          some u := hu
      rw [Finmap.lookup_singleton_eq] at hsingle
      exact Option.some.inj hsingle
    have hnow : p.nextSteps.lookup q = some v := (h.nextSteps q).symm.trans hheld
    refine ⟨_, modelExecutionOf_eq_ok.mpr ⟨hexec, v, s', hnow, h.stateSeq ▸ hfollow, rfl⟩, ?_⟩
    rw [hexec, ← hpointer]
    exact h.handOver hnow hfresh s'

end OwningProgram

end McMini
