import Mathlib.Data.List.Sort
import McMini.Model.Refinement

/-!
# Programs

The model of a program in the course of its exploration: the states it went through, the
transitions executed to get there (the *trace*), and for each known runner the transition
it executes next. `modelExecutionOf` advances the model by one transition of a runner, and
`restoreModelAtDepth` takes it back to an earlier point of the trace, from which it reads
what the runners were doing then.
-/

namespace McMini

open Foundation

/-- A program: its state sequence, its trace and the pending transitions. -/
structure Program where
  stateSeq : StateSequence
  trace : List Transition
  nextSteps : Finmap fun _ : RunnerId => Transition

/-- The predecessor in 32-bit unsigned arithmetic. -/
def uint32Pred (n : ℕ) : ℕ := if n = 0 then 4294967295 else n - 1

/-- The elements of a finite set, in order. -/
def inOrder (s : Finset ℕ) : List ℕ :=
  Quot.liftOn s.val (List.insertionSort (· ≤ ·)) fun _ _ h =>
    List.Perm.eq_of_sortedLE List.sortedLE_insertionSort List.sortedLE_insertionSort
      ((List.perm_insertionSort _ _).trans (h.trans (List.perm_insertionSort _ _).symm))

@[simp]
theorem mem_inOrder {s : Finset ℕ} {n : ℕ} : n ∈ inOrder s ↔ n ∈ s := by
  obtain ⟨⟨l⟩, hs⟩ := s
  exact List.mem_insertionSort _

namespace Program

/-- `program(const state &, pending_transitions &&)`. -/
def ofState (initialState : DetachedState)
    (initialFirstSteps : Finmap fun _ : RunnerId => Transition) : Program :=
  ⟨.ofDetachedState initialState, [], initialFirstSteps⟩

/-- The program at `main`, whose only runner is about to start. -/
def startingFromMain : Program :=
  ofState .atMain (Finmap.singleton ridMainThread ⟨ridMainThread, .threadStart⟩)

/-- Registers the transition as the next one of its executor. -/
def setTransition (p : Program) (t : Transition) : Program :=
  { p with nextSteps := p.nextSteps.insert t.executor t }

/-! ### Observations -/

/-- The runners with a pending transition, in order. -/
def runners (p : Program) : List RunnerId := inOrder p.nextSteps.keys

theorem mem_runners {p : Program} {r : RunnerId} :
    r ∈ p.runners ↔ ∃ t, p.nextSteps.lookup r = some t := by
  rw [runners, mem_inOrder, Finmap.mem_keys, ← Finmap.lookup_isSome, Option.isSome_iff_exists]

/-- The pending transitions, in the order of the runners. -/
def pending (p : Program) : List Transition := p.runners.filterMap p.nextSteps.lookup

/-- The runners whose pending transition is enabled. -/
def getEnabledRunners (p : Program) : Except Failure (List RunnerId) :=
  p.runners.filterM fun r =>
    match p.nextSteps.lookup r with
    | some t => t.isEnabledIn p.stateSeq.toState
    | none => return false

/-- No pending transition is enabled, as `isEnabled` tells, and a runner has not exited. -/
def isInDeadlockBy (isEnabled : Transition → Except Failure Bool) (p : Program) :
    Except Failure Bool := do
  if p.pending.isEmpty then return false
  if ← p.pending.anyM isEnabled then return false
  let states ← p.runners.mapM p.stateSeq.toState.getStateOfRunner
  return !states.all (·.hasExited)

def isInDeadlock (p : Program) : Except Failure Bool :=
  p.isInDeadlockBy (·.isEnabledIn p.stateSeq.toState)

/-! ### Executing a transition -/

/-- Executes the pending transition of `runner`, which will execute `npo` next. The states are the
ones which `follow` makes of them. -/
def modelExecutionBy (follow : Transition → StateSequence × Except Failure Status) (p : Program)
    (runner : RunnerId) (npo : Transition) : Except Failure Program :=
  if runner ≠ npo.executor then
    .error (.runtimeError ("The next incoming transition replacing `next_s_p` in the model must " ++
      "be run by the same runner (" ++ toString runner ++ " != " ++ toString npo.executor ++ ")"))
  else match p.nextSteps.lookup runner with
  | none => .error (.runtimeError ("Attempting to execute a runner whose next transition is " ++
      "unknown to the model. If this runner was dynamically created in the model (e.g. in the " ++
      "callback routine for handling `pthread_create()`), ensure that the "))
  | some next =>
    match follow next with
    | (stateSeq, .ok .exists') =>
      .ok ⟨stateSeq, p.trace ++ [next], p.nextSteps.insert npo.executor npo⟩
    | (_, .ok .disabled) =>
      .error (.runtimeError ("Attempted to model the execution of a disabled transition(" ++
        next.debugString ++ ")"))
    | (_, .ok .undefined) =>
      .error (.runtimeError ("Attempted to model the execution of a undefined transition(" ++
        next.debugString ++ ")"))
    | (_, .error e) => .error e

def modelExecutionOf (p : Program) (runner : RunnerId) (npo : Transition) :
    Except Failure Program :=
  p.modelExecutionBy p.stateSeq.follow runner npo

/-! ### Going back -/

/-- The loop which visits the trace from position `k - 1` down to the last position above
`lo`, and remembers for each runner the position visited last. -/
def runnerToIndexFromTop (transitions : List Transition) (lo : ℕ) :
    ℕ → (AList fun _ : RunnerId => ℕ) → AList fun _ : RunnerId => ℕ
  | 0, indices => indices
  | k + 1, indices =>
    if lo < k then
      match transitions[k]? with
      | some t => runnerToIndexFromTop transitions lo k (indices.insert t.executor k)
      | none => indices
    else indices

/-- What the runners were doing before the transitions from position `n` on: a runner which
executed one of them was about to execute the first of those. The bound of the loop is
computed in 32-bit arithmetic. -/
def restoredSteps (p : Program) (n : ℕ) : Finmap fun _ : RunnerId => Transition :=
  (runnerToIndexFromTop p.trace (uint32Pred n) p.trace.length ∅).entries.foldl
    (fun steps e =>
      match p.trace[e.2]? with
      | some t => steps.insert t.executor t
      | none => steps)
    p.nextSteps

/-- Restores the model as it was after `n` transitions. -/
def restoreModelAtDepth (p : Program) (n : ℕ) : Program × Except Failure Unit :=
  let nextSteps := p.restoredSteps n
  let (stateSeq, result) := p.stateSeq.consumeIntoSubsequence (n + 1)
  (⟨stateSeq, p.trace.take n, nextSteps⟩, result)

/-! ### What going back restores -/

section Restore

variable {transitions : List Transition} {q : RunnerId}

/-- What is left of a list behind a position, by looking the positions up. -/
private theorem drop_eq_filterMap (l : List Transition) (n : ℕ) :
    l.drop n = (List.range' n (l.length - n)).filterMap (l[·]?) := by
  induction l using List.reverseRecOn with
  | nil => simp
  | append_singleton l a ih =>
    by_cases hn : n ≤ l.length
    · have hlen : (l ++ [a]).length - n = l.length - n + 1 := by
        rw [List.length_append, List.length_singleton]
        omega
      have hsame : (List.range' n (l.length - n)).filterMap ((l ++ [a])[·]?) = l.drop n := by
        rw [ih]
        refine List.filterMap_congr fun i hi => ?_
        have hlt := List.mem_range'_1.mp hi
        exact List.getElem?_append_left (by omega)
      rw [List.drop_append_of_le_length hn, hlen, List.range'_concat, List.filterMap_append, hsame]
      have hlast : n + (l.length - n) = l.length := by omega
      simp [hlast]
    · have hlen : (l ++ [a]).length - n = 0 := by
        rw [List.length_append, List.length_singleton]
        omega
      rw [List.drop_eq_nil_of_le (by simp; omega), hlen]
      rfl

/-- The loop over the trace finds for each runner the first transition above the bound. -/
theorem runnerToIndexFromTop_lookup (lo : ℕ) {k : ℕ} (hk : k ≤ transitions.length)
    (indices : AList fun _ : RunnerId => ℕ) :
    (runnerToIndexFromTop transitions lo k indices).lookup q =
      ((List.range' (lo + 1) (k - (lo + 1))).find? fun i =>
        (transitions[i]?).any (·.executor == q)).or (indices.lookup q) := by
  induction k generalizing indices with
  | zero => simp [runnerToIndexFromTop]
  | succ k ih =>
    rw [runnerToIndexFromTop]
    by_cases hlo : lo < k
    · obtain ⟨t, ht⟩ : ∃ t, transitions[k]? = some t := ⟨_, List.getElem?_eq_getElem hk⟩
      have hlen : k + 1 - (lo + 1) = k - (lo + 1) + 1 := by omega
      have hlast : lo + 1 + 1 * (k - (lo + 1)) = k := by omega
      simp only [if_pos hlo, ht]
      rw [ih (Nat.le_of_succ_le hk), hlen, List.range'_concat, List.find?_append, hlast,
        Option.or_assoc]
      congr 1
      by_cases hq : t.executor = q
      · subst hq
        simp [ht]
      · simp [ht, hq, AList.lookup_insert_ne (Ne.symm hq)]
    · have hlen : k + 1 - (lo + 1) = 0 := by omega
      simp [hlo, hlen]

/-- Registering the transitions at the given positions, one for each runner. -/
private theorem foldl_restore_lookup {l : List (Sigma fun _ : RunnerId => ℕ)} (hl : l.NodupKeys)
    (hkeyed : ∀ e ∈ l, ∃ t, transitions[e.2]? = some t ∧ t.executor = e.1)
    (steps : Finmap fun _ : RunnerId => Transition) :
    (l.foldl (fun steps e =>
      match transitions[e.2]? with
      | some t => steps.insert t.executor t
      | none => steps) steps).lookup q =
      ((l.dlookup q).bind (transitions[·]?)).or (steps.lookup q) := by
  induction l generalizing steps with
  | nil => simp
  | cons e l ih =>
    obtain ⟨he, hl⟩ := List.nodupKeys_cons.mp hl
    obtain ⟨t, ht, hexec⟩ := hkeyed e (List.mem_cons_self ..)
    rw [List.foldl_cons, ih hl fun e' he' => hkeyed e' (List.mem_cons_of_mem _ he')]
    simp only [ht, lookup_insert]
    obtain ⟨r, i⟩ := e
    by_cases hq : r = q
    · subst hq
      have hnone : l.dlookup r = none := List.dlookup_eq_none.mpr he
      simp [hnone, List.dlookup_cons_eq, ht, hexec]
    · rw [List.dlookup_cons_ne _ _ (Ne.symm hq), if_neg (hexec ▸ hq)]

/-- The positions which the loop remembers are above the bound, and each is one of a transition of
the runner. -/
theorem runnerToIndexFromTop_keyed (transitions : List Transition) (lo : ℕ) :
    ∀ e ∈ (runnerToIndexFromTop transitions lo transitions.length ∅).entries,
      lo < e.2 ∧ ∃ t, transitions[e.2]? = some t ∧ t.executor = e.1 := by
  rintro ⟨r, i⟩ he
  have hlookup : (runnerToIndexFromTop transitions lo transitions.length ∅).lookup r = some i :=
    List.mem_dlookup (AList.nodupKeys _) he
  rw [runnerToIndexFromTop_lookup lo le_rfl, AList.lookup_empty, Option.or_none] at hlookup
  have hany := List.find?_some hlookup
  have hmem := List.mem_range'_1.mp (List.mem_of_find?_eq_some hlookup)
  exact ⟨hmem.1, by simpa [Option.any_eq_true] using hany⟩

/-- What is pending after going back is at the positions which the loop remembers. -/
theorem restoredSteps_lookup_index (program : Program) (n : ℕ) :
    (program.restoredSteps n).lookup q =
      (((runnerToIndexFromTop program.trace (uint32Pred n) program.trace.length ∅).lookup q).bind
        (program.trace[·]?)).or (program.nextSteps.lookup q) :=
  foldl_restore_lookup (AList.nodupKeys _)
    (fun e he => (runnerToIndexFromTop_keyed program.trace (uint32Pred n) e he).2) _

/-- Except for depth `0`, going back makes pending for each runner the first transition it
executed from there on. -/
theorem restoredSteps_lookup (program : Program) {n : ℕ} (hn : 1 ≤ n ∨ program.trace = []) :
    (program.restoredSteps n).lookup q =
      ((program.trace.drop n).find? (·.executor == q)).or (program.nextSteps.lookup q) := by
  by_cases htrace : program.trace = []
  · simp [restoredSteps, htrace, runnerToIndexFromTop]
  · have hn := hn.resolve_right htrace
    obtain ⟨k, rfl⟩ : ∃ k, n = k + 1 := ⟨n - 1, (Nat.sub_add_cancel hn).symm⟩
    have hpred : uint32Pred (k + 1) = k := by simp [uint32Pred]
    rw [restoredSteps_lookup_index, hpred, runnerToIndexFromTop_lookup k le_rfl,
      AList.lookup_empty, Option.or_none, drop_eq_filterMap, List.find?_filterMap]

/-- Going back to depth `0` leaves the pending transitions alone: no position of a trace is above
the bound of the loop. -/
theorem restoredSteps_zero (program : Program) (h : program.trace.length ≤ 4294967296) :
    program.restoredSteps 0 = program.nextSteps := by
  refine Finmap.ext_lookup fun q => ?_
  have hempty : program.trace.length - (uint32Pred 0 + 1) = 0 := Nat.sub_eq_zero_of_le h
  rw [restoredSteps_lookup_index, runnerToIndexFromTop_lookup _ le_rfl, hempty]
  rfl

end Restore

end Program

/-- The model executes the pending transition of the runner, if that exists. -/
theorem modelExecutionBy_eq_ok {follow : Transition → StateSequence × Except Failure Status}
    {program program' : Program} {p : RunnerId} {t : Transition} :
    program.modelExecutionBy follow p t = .ok program' ↔
      t.executor = p ∧ ∃ next s', program.nextSteps.lookup p = some next ∧
        follow next = (s', .ok .exists') ∧
        program' = ⟨s', program.trace ++ [next], program.nextSteps.insert p t⟩ := by
  unfold Program.modelExecutionBy
  by_cases hp : t.executor = p
  · subst hp
    rw [if_neg (not_not.mpr rfl), and_iff_right rfl]
    cases program.nextSteps.lookup t.executor with
    | none => simp
    | some next =>
      rcases hfollow : follow next with ⟨s', _ | _ | _ | _⟩ <;> simp [hfollow, eq_comm]
  · simp [hp, Ne.symm hp]

theorem modelExecutionOf_eq_ok {program program' : Program} {p : RunnerId} {t : Transition} :
    program.modelExecutionOf p t = .ok program' ↔
      t.executor = p ∧ ∃ next s', program.nextSteps.lookup p = some next ∧
        program.stateSeq.follow next = (s', .ok .exists') ∧
        program' = ⟨s', program.trace ++ [next], program.nextSteps.insert p t⟩ :=
  modelExecutionBy_eq_ok

end McMini
