import McMini.Foundation.FallibleLists
import McMini.Properties.ClockVectors

/-!
# The test for happens-before

`happens_before_thread(i, p)` should tell whether the transition at position `i` of the trace
happens before one of the runner `p`, or is one. It reads the answer off the clock of `p`,
whose entries count positions from `1`, and compares the entry with `i`, which counts from `0`.

On correct clocks the answer is that to another question whenever the two differ: a transition
is also taken to happen before the runner when the one before it does and has the same executor,
and so is the first of the trace (`happensBeforeThread_exact_iff`). The same slip in
`threads_race_after` is repaired by the transitions in between, except right behind position
`i` (`threadsRaceAfter_exact_iff`).
-/

namespace McMini

open Foundation

/-- The transition at the position happens before one of the runner, or is one. -/
def HappensBeforeThread (config : Configuration) (ts : List Transition) (i : ℕ) (p : RunnerId) :
    Prop :=
  HappensBeforeOwner config.Dependent (·.executor) ts i p

/-- The runner `q` has executed a transition behind position `i` which happens before one of
the runner `p`, or is one. -/
def RacesAfter (config : Configuration) (ts : List Transition) (i : ℕ) (q p : RunnerId) : Prop :=
  ∃ j t, i < j ∧ ts[j]? = some t ∧ t.executor = q ∧ HappensBeforeThread config ts j p

/-- The stack belongs to the trace, and its last item has the correct clock for each runner `p`:
it maps each runner to its last transition which happens before the last one of `p`, or equals
it, counted from `1`, and to `0` if there is none. -/
structure HasCorrectClocks (config : Configuration) (ts : List Transition)
    (stack : List StackItem) : Prop where
  length : stack.length = ts.length + 1
  out : ∀ (i : ℕ) (t : Transition) (item : StackItem), ts[i]? = some t → stack[i]? = some item →
    item.outTransition = .valid t
  clock : ∀ top, stack.getLast? = some top → ∀ (p r : RunnerId) (runner : RunnerItem),
    top.perRunnerClocks[p]? = some runner →
      IsGreatest (insert 0 {n | ∃ k, lastExecutedBy p ts = some k ∧
        n ∈ ticks config.Dependent (·.executor) ts k r}) (runner.cv.valueFor r)

/-- The first transition does not happen before the runner; or one which does not is behind one
of the same executor which does. -/
def TakenForEarlier (config : Configuration) (ts : List Transition) (i : ℕ) (p : RunnerId) : Prop :=
  ¬ HappensBeforeThread config ts i p ∧ (i = 0 ∨ ∃ j t u, i = j + 1 ∧ ts[j]? = some t ∧
    ts[i]? = some u ∧ t.executor = u.executor ∧ HappensBeforeThread config ts j p)

section

variable {config : Configuration} {ts : List Transition} {stack : List StackItem} {t : Transition}
  {i j k : ℕ} {p q r : RunnerId}

/-! ### The last transition of a runner -/

theorem lastExecutedBy_eq_some (h : lastExecutedBy p ts = some k) :
    (∃ t, ts[k]? = some t ∧ t.executor = p) ∧
      ∀ j t, ts[j]? = some t → t.executor = p → j ≤ k := by
  induction ts using List.reverseRecOn with
  | nil => cases h
  | append_singleton ts u ih =>
    rw [lastExecutedBy_concat] at h
    split_ifs at h with hu
    · obtain rfl := Option.some.inj h
      refine ⟨⟨u, List.getElem?_concat_length, hu⟩, fun j t hj _ => ?_⟩
      have hlt := (List.getElem?_eq_some_iff.mp hj).1
      rw [List.length_append, List.length_singleton] at hlt
      omega
    · have hk := lt_length_of_lastExecutedBy h
      obtain ⟨⟨t, ht, htp⟩, hlast⟩ := ih h
      refine ⟨⟨t, by rw [List.getElem?_append_left hk, ht], htp⟩, fun j v hj hv => ?_⟩
      rcases Nat.lt_or_ge j ts.length with hlt | hge
      · rw [List.getElem?_append_left hlt] at hj
        exact hlast j v hj hv
      · rw [List.getElem?_append_right hge, List.getElem?_singleton] at hj
        split_ifs at hj
        exact absurd (Option.some.inj hj ▸ hv) hu

theorem lastExecutedBy_eq_none (h : lastExecutedBy p ts = none) (hj : ts[j]? = some t) :
    t.executor ≠ p := by
  induction ts using List.reverseRecOn with
  | nil => cases hj
  | append_singleton ts u ih =>
    rw [lastExecutedBy_concat] at h
    split_ifs at h with hu
    rcases Nat.lt_or_ge j ts.length with hlt | hge
    · rw [List.getElem?_append_left hlt] at hj
      exact ih h hj
    · rw [List.getElem?_append_right hge, List.getElem?_singleton] at hj
      split_ifs at hj
      exact Option.some.inj hj ▸ hu

/-- What happens before some transition of a runner happens before its last one. -/
theorem happensBeforeThread_iff : HappensBeforeThread config ts i p ↔
    ∃ k, lastExecutedBy p ts = some k ∧ HappensBefore config.Dependent ts i k := by
  constructor
  · rintro ⟨j, t, hj, htp, hij⟩
    cases hlast : lastExecutedBy p ts with
    | none => exact absurd htp (lastExecutedBy_eq_none hlast hj)
    | some k =>
      obtain ⟨⟨u, hk, hup⟩, hmax⟩ := lastExecutedBy_eq_some hlast
      have hjk : HappensBefore config.Dependent ts j k := happensBefore_of_owner_eq
        config.dependent_of_executor_eq (hmax j t hj htp) hj hk (htp.trans hup.symm)
      exact ⟨k, rfl, hij.trans hjk⟩
  · rintro ⟨k, hlast, hik⟩
    obtain ⟨⟨u, hk, hup⟩, -⟩ := lastExecutedBy_eq_some hlast
    exact ⟨k, u, hk, hup, hik⟩

/-! ### The stack -/

/-- The clocks of the last item are the clocks of the runners. -/
theorem HasCorrectClocks.isOwnerClock (h : HasCorrectClocks config ts stack) {top : StackItem}
    (htop : stack.getLast? = some top) {runner : RunnerItem}
    (hrunner : top.perRunnerClocks[p]? = some runner) :
    IsOwnerClock config.Dependent (·.executor) ts p runner.cv.valueFor := by
  intro r
  have hset : {n | ∃ k, lastExecutedBy p ts = some k ∧
        n ∈ ticks config.Dependent (·.executor) ts k r} =
      {n | ∃ i b, n = i + 1 ∧ ts[i]? = some b ∧ b.executor = r ∧
        HappensBeforeOwner config.Dependent (·.executor) ts i p} := by
    ext n
    constructor
    · rintro ⟨k, hlast, i, b, hn, hb, hbr, hik⟩
      exact ⟨i, b, hn, hb, hbr, happensBeforeThread_iff.mpr ⟨k, hlast, hik⟩⟩
    · rintro ⟨i, b, hn, hb, hbr, hip⟩
      obtain ⟨k, hlast, hik⟩ := happensBeforeThread_iff.mp hip
      exact ⟨k, hlast, i, b, hn, hb, hbr, hik⟩
  rw [← hset]
  exact h.clock top htop p r runner hrunner

/-- A stack which tracks the trace with exact clocks has the correct ones. -/
theorem Tracks.hasCorrectClocks (h : Tracks config ts stack) : HasCorrectClocks config ts stack := by
  refine ⟨h.length, h.out, fun top htop p r runner hrunner => ?_⟩
  rw [List.getLast?_eq_getElem?, h.length, Nat.add_sub_cancel] at htop
  rw [h.runner ts.length top htop p runner hrunner, List.take_length]
  cases hlast : lastExecutedBy p ts with
  | none =>
    rw [clockOf, ClockVector.valueFor_empty]
    simp
  | some k =>
    have hk : k + 1 < stack.length := by
      have hlt := lt_length_of_lastExecutedBy hlast
      rw [h.length]
      omega
    have hitem := List.getElem?_eq_getElem hk
    rw [clockOf, hitem, Option.map_some, Option.getD_some]
    simpa using h.clock k _ hitem r

theorem HasCorrectClocks.getTransition_eq_ok (h : HasCorrectClocks config ts stack)
    (ht : ts[i]? = some t) : getTransition stack i = .ok t := by
  have hi : i < stack.length := by
    have hlt := (List.getElem?_eq_some_iff.mp ht).1
    rw [h.length]
    omega
  have hitem := List.getElem?_eq_getElem hi
  rw [getTransition, stackAt, hitem]
  show (stack[i].outTransition.deref) = .ok t
  rw [h.out i t _ ht hitem]
  rfl

/-- What the test answers on correct clocks. -/
theorem HasCorrectClocks.happensBeforeThread_eq_ok (h : HasCorrectClocks config ts stack)
    (hi : i < ts.length) (hp : p < maxTotalThreadsInProgram) :
    ∃ b, happensBeforeThread stack i p = .ok b ∧
      (b = true ↔ HappensBeforeThread config ts i p ∨ TakenForEarlier config ts i p) := by
  have ht := List.getElem?_eq_getElem hi
  obtain ⟨top, htop⟩ : ∃ top, stack.getLast? = some top := by
    have hne : stack ≠ [] := List.ne_nil_of_length_pos (by rw [h.length]; omega)
    exact ⟨_, List.getLast?_eq_some_getLast hne⟩
  have hrunner : top.perRunnerClocks[p]? = some top.perRunnerClocks[p] :=
    Vector.getElem?_eq_getElem hp
  refine ⟨decide (i ≤ top.perRunnerClocks[p].cv.valueFor ts[i].executor), ?_, ?_⟩
  · rw [happensBeforeThread, h.getTransition_eq_ok ht, stackBack, htop]
    show (top.clockVectorOf p >>= _) = _
    rw [StackItem.clockVectorOf, hrunner]
    rfl
  · rw [decide_eq_true_iff, (h.isOwnerClock htop hrunner).le_iff
      config.dependent_of_executor_eq ht]
    constructor
    · rintro (hbefore | hrest)
      · exact .inl hbefore
      · by_cases hbefore : HappensBeforeThread config ts i p
        · exact .inl hbefore
        · refine .inr ⟨hbefore, hrest.imp_right ?_⟩
          rintro ⟨j, u, hij, hu, huexec, hjp⟩
          exact ⟨j, u, ts[i], hij, hu, ht, huexec, hjp⟩
    · rintro (hbefore | ⟨-, hzero | ⟨j, t, u, hij, hj, hu, hexec, hjp⟩⟩)
      · exact .inl hbefore
      · exact .inr (.inl hzero)
      · obtain rfl : ts[i] = u := Option.some.inj (ht.symm.trans hu)
        exact .inr (.inr ⟨j, t, hij, hj, hexec, hjp⟩)

/-- What the search for a race answers on correct clocks. -/
theorem HasCorrectClocks.threadsRaceAfter_eq_ok (h : HasCorrectClocks config ts stack)
    (hp : p < maxTotalThreadsInProgram) :
    ∃ b, threadsRaceAfter stack i q p = .ok b ∧
      (b = true ↔ ∃ j t, i < j ∧ ts[j]? = some t ∧ t.executor = q ∧
        (HappensBeforeThread config ts j p ∨ TakenForEarlier config ts j p)) := by
  have hrange : ∀ j, j ∈ List.range' (i + 1) (stack.length - 1 - (i + 1)) ↔
      i < j ∧ j < ts.length := by
    intro j
    rw [List.mem_range'_1, h.length]
    omega
  obtain ⟨b, hb, hbiff⟩ := exists_anyM_eq_ok (l := List.range' (i + 1) (stack.length - 1 - (i + 1)))
    (f := fun j => do
      if q == (← getTransition stack j).executor then happensBeforeThread stack j p
      else return false)
    (P := fun j => ∃ t, ts[j]? = some t ∧ t.executor = q ∧
      (HappensBeforeThread config ts j p ∨ TakenForEarlier config ts j p)) (by
    intro j hj
    have hlt := ((hrange j).mp hj).2
    have ht := List.getElem?_eq_getElem hlt
    obtain ⟨b, hb, hbiff⟩ := h.happensBeforeThread_eq_ok hlt hp
    by_cases hq : ts[j].executor = q
    · refine ⟨b, ?_, hbiff.trans ⟨fun hjp => ⟨ts[j], ht, hq, hjp⟩, fun ⟨_, _, _, hjp⟩ => hjp⟩⟩
      rw [h.getTransition_eq_ok ht]
      show (if q == ts[j].executor then happensBeforeThread stack j p else return false) = .ok b
      rw [if_pos (by simp [hq]), hb]
    · refine ⟨false, ?_, iff_of_false Bool.false_ne_true ?_⟩
      · rw [h.getTransition_eq_ok ht]
        show (if q == ts[j].executor then happensBeforeThread stack j p else return false) = .ok false
        rw [if_neg (by simpa using Ne.symm hq)]
        rfl
      · rintro ⟨t, ht', hq', -⟩
        obtain rfl : ts[j] = t := Option.some.inj (ht.symm.trans ht')
        exact hq hq')
  refine ⟨b, hb, hbiff.trans ?_⟩
  constructor
  · rintro ⟨j, hj, t, ht, hq, hjp⟩
    exact ⟨j, t, ((hrange j).mp hj).1, ht, hq, hjp⟩
  · rintro ⟨j, t, hij, ht, hq, hjp⟩
    exact ⟨j, (hrange j).mpr ⟨hij, (List.getElem?_eq_some_iff.mp ht).1⟩, t, ht, hq, hjp⟩

/-! ### Exactness -/

/-- The test for happens-before is right exactly where a transition is not taken for the one
before it. -/
theorem HasCorrectClocks.happensBeforeThread_exact_iff (h : HasCorrectClocks config ts stack)
    (hi : i < ts.length) (hp : p < maxTotalThreadsInProgram) :
    ∃ b, happensBeforeThread stack i p = .ok b ∧
      ((b = true ↔ HappensBeforeThread config ts i p) ↔ ¬ TakenForEarlier config ts i p) := by
  obtain ⟨b, hb, hbiff⟩ := h.happensBeforeThread_eq_ok hi hp
  refine ⟨b, hb, ?_⟩
  rw [hbiff, or_iff_left_iff_imp]
  constructor
  · intro himp htaken
    exact htaken.1 (himp htaken)
  · intro hnot htaken
    exact absurd htaken hnot

/-- Two transitions of `q` follow each other at position `i`, and the first of them is the last to
happen before the runner `p`. -/
def LastBeforeAt (config : Configuration) (ts : List Transition) (i : ℕ) (q p : RunnerId) : Prop :=
  ∃ t u, ts[i]? = some t ∧ ts[i + 1]? = some u ∧ t.executor = q ∧ u.executor = q ∧
    HappensBeforeThread config ts i p ∧ ¬ HappensBeforeThread config ts (i + 1) p

/-- The transitions of a runner which happen before a runner are its first ones. -/
theorem HappensBeforeThread.of_executor_eq {u : Transition} (h : HappensBeforeThread config ts j p)
    (hij : i ≤ j) (hi : ts[i]? = some t) (hj : ts[j]? = some u) (hexec : t.executor = u.executor) :
    HappensBeforeThread config ts i p :=
  HappensBeforeOwner.of_owner_eq config.dependent_of_executor_eq h hij hi hj hexec

/-- The search for a race is right exactly where it does not start between two transitions of
the runner of which the first alone happens before the other runner. -/
theorem HasCorrectClocks.threadsRaceAfter_exact_iff (h : HasCorrectClocks config ts stack)
    (hp : p < maxTotalThreadsInProgram) :
    ∃ b, threadsRaceAfter stack i q p = .ok b ∧
      ((b = true ↔ RacesAfter config ts i q p) ↔ ¬ LastBeforeAt config ts i q p) := by
  obtain ⟨b, hb, hbiff⟩ := h.threadsRaceAfter_eq_ok (i := i) (q := q) hp
  refine ⟨b, hb, ?_⟩
  rw [hbiff]
  constructor
  · rintro hexact ⟨t, u, ht, hu, htq, huq, hbefore, hnot⟩
    have htaken : TakenForEarlier config ts (i + 1) p :=
      ⟨hnot, .inr ⟨i, t, u, rfl, ht, hu, htq.trans huq.symm, hbefore⟩⟩
    obtain ⟨j, v, hij, hv, hvq, hjp⟩ :=
      hexact.mp ⟨i + 1, u, Nat.lt_succ_self i, hu, huq, .inr htaken⟩
    exact hnot (hjp.of_executor_eq hij hu hv (huq.trans hvq.symm))
  · intro hnot
    constructor
    · rintro ⟨j, u, hij, hu, huq, hjp | ⟨hnotj, hzero | ⟨k, t, u', rfl, ht, hu', hexec, hkp⟩⟩⟩
      · exact ⟨j, u, hij, hu, huq, hjp⟩
      · omega
      · -- a transition of the same runner in front of `j`, which is still behind `i`
        obtain rfl : u = u' := Option.some.inj (hu.symm.trans hu')
        rcases (Nat.lt_succ_iff.mp hij).eq_or_lt with rfl | hik
        · exact absurd ⟨t, u, ht, hu, hexec.trans huq, huq, hkp, hnotj⟩ hnot
        · exact ⟨k, t, hik, ht, hexec.trans huq, hkp⟩
    · rintro ⟨j, t, hij, ht, htq, hjp⟩
      exact ⟨j, t, hij, ht, htq, .inl hjp⟩

/-- **Exactness of the happens-before test.** On a stack with correct clocks,
`happens_before_thread` is right about a position and a runner if and only if the transition
there is not taken for the one before it, and `threads_race_after` if and only if it does not
start between two transitions of the runner of which the first alone happens before the other
one. -/
theorem happensBefore_tests_exact_iff (h : HasCorrectClocks config ts stack) :
    (∀ i p, i < ts.length → p < maxTotalThreadsInProgram →
      ∃ b, happensBeforeThread stack i p = .ok b ∧
        ((b = true ↔ HappensBeforeThread config ts i p) ↔ ¬ TakenForEarlier config ts i p)) ∧
    ∀ i q p, p < maxTotalThreadsInProgram →
      ∃ b, threadsRaceAfter stack i q p = .ok b ∧
        ((b = true ↔ RacesAfter config ts i q p) ↔ ¬ LastBeforeAt config ts i q p) :=
  ⟨fun _ _ hi hp => h.happensBeforeThread_exact_iff hi hp,
    fun _ _ _ hp => h.threadsRaceAfter_exact_iff hp⟩

end

/-- A stack over the trace in which runner `0` has started, with its clock. -/
private def startedStack : List StackItem :=
  [{ cv := .empty, outTransition := .valid ⟨0, .threadStart⟩, enabledRunners := {0} },
    { cv := ClockVector.empty.set 0 1
      perRunnerClocks := (Vector.replicate _ {}).set 0 ⟨ClockVector.empty.set 0 1⟩ (by decide)
      enabledRunners := {0} }]

private theorem startedStack_hasCorrectClocks :
    HasCorrectClocks {} [⟨0, .threadStart⟩] startedStack where
  length := rfl
  out i t item ht hitem := by
    obtain rfl : i = 0 := by
      have hlt := (List.getElem?_eq_some_iff.mp ht).1
      rw [List.length_singleton] at hlt
      omega
    obtain rfl := Option.some.inj ht
    obtain rfl := Option.some.inj hitem
    rfl
  clock top htop p r runner hrunner := by
    obtain rfl := Option.some.inj htop
    have hlast : lastExecutedBy p ([] ++ [⟨0, .threadStart⟩]) = if 0 = p then some 0 else none :=
      lastExecutedBy_concat
    rw [List.nil_append] at hlast
    rw [hlast]
    by_cases hp : 0 = p
    · subst hp
      obtain rfl := Option.some.inj hrunner
      show IsGreatest _ ((ClockVector.empty.set 0 1).valueFor r)
      rw [if_pos rfl, ClockVector.valueFor_set]
      split_ifs with hr
      · refine ⟨.inr ⟨0, rfl, 0, _, rfl, rfl, hr.symm, .refl⟩, ?_⟩
        rintro n (rfl | ⟨k, -, i, b, rfl, hb, -⟩)
        · exact Nat.zero_le 1
        · have hlt := (List.getElem?_eq_some_iff.mp hb).1
          rw [List.length_singleton] at hlt
          omega
      · refine ⟨.inl rfl, ?_⟩
        rintro n (rfl | ⟨k, -, i, b, rfl, hb, hbr, -⟩)
        · exact le_rfl
        · obtain rfl := List.mem_singleton.mp (List.mem_of_getElem? hb)
          exact absurd hbr.symm hr
    · have hcv : runner.cv = .empty := by
        have hset := (Vector.getElem?_set_ne (by decide) hp).symm.trans hrunner
        rw [Vector.getElem?_replicate, Option.ite_none_right_eq_some] at hset
        rw [← Option.some.inj hset.2]
      rw [hcv, if_neg hp]
      simp

/-- Runner `0` sets a mutex up, and runner `1` locks it. -/
private def settingUp : List Transition := [⟨0, .mutexInit 2⟩, ⟨1, .mutexLock 2⟩]

private def clockOfInit : ClockVector := ClockVector.empty.set 0 1

private def clockOfLock : ClockVector := clockOfInit.set 1 2

/-- A stack over this trace, with the clocks of the runners. -/
private def stackOfSettingUp : List StackItem :=
  [{ cv := .empty, outTransition := .valid ⟨0, .mutexInit 2⟩, enabledRunners := {0, 1} },
    { cv := clockOfInit, outTransition := .valid ⟨1, .mutexLock 2⟩
      perRunnerClocks := (Vector.replicate _ {}).set 0 ⟨clockOfInit⟩ (by decide)
      enabledRunners := {1} },
    { cv := clockOfLock
      perRunnerClocks := ((Vector.replicate _ {}).set 0 ⟨clockOfInit⟩ (by decide)).set 1
        ⟨clockOfLock⟩ (by decide)
      enabledRunners := {1} }]

private theorem lastExecutedBy_settingUp (p : RunnerId) : lastExecutedBy p settingUp =
    if 1 = p then some 1 else if 0 = p then some 0 else none := by
  show lastExecutedBy p (([] ++ [⟨0, .mutexInit 2⟩]) ++ [⟨1, .mutexLock 2⟩]) = _
  rw [lastExecutedBy_concat, lastExecutedBy_concat]
  rfl

/-- The positions of the trace. -/
private theorem getElem?_settingUp {i : ℕ} {b : Transition} (hb : settingUp[i]? = some b) :
    i = 0 ∧ b = ⟨0, .mutexInit 2⟩ ∨ i = 1 ∧ b = ⟨1, .mutexLock 2⟩ := by
  rcases i with _ | _ | i
  · exact .inl ⟨rfl, (Option.some.inj hb).symm⟩
  · exact .inr ⟨rfl, (Option.some.inj hb).symm⟩
  · cases hb

private theorem isGreatest_clockOfInit (r : RunnerId) :
    IsGreatest (insert 0 {n | ∃ k, lastExecutedBy 0 settingUp = some k ∧
      n ∈ ticks ({} : Configuration).Dependent (·.executor) settingUp k r})
      (clockOfInit.valueFor r) := by
  have hlast : lastExecutedBy 0 settingUp = some 0 := lastExecutedBy_settingUp 0
  rw [clockOfInit, ClockVector.valueFor_set, hlast]
  split_ifs with hr
  · subst hr
    refine ⟨.inr ⟨0, rfl, 0, _, rfl, rfl, rfl, .refl⟩, ?_⟩
    rintro n (rfl | ⟨k, hk, i, b, rfl, -, -, hik⟩)
    · exact Nat.zero_le 1
    · obtain rfl : 0 = k := Option.some.inj hk
      exact Nat.succ_le_succ hik.le
  · refine ⟨.inl rfl, ?_⟩
    rintro n (rfl | ⟨k, hk, i, b, rfl, hb, hbr, hik⟩)
    · exact le_rfl
    · obtain rfl : 0 = k := Option.some.inj hk
      rcases getElem?_settingUp hb with ⟨-, rfl⟩ | ⟨rfl, -⟩
      · exact absurd hbr.symm hr
      · exact absurd hik.le (by decide)

private theorem isGreatest_clockOfLock (r : RunnerId) :
    IsGreatest (insert 0 {n | ∃ k, lastExecutedBy 1 settingUp = some k ∧
      n ∈ ticks ({} : Configuration).Dependent (·.executor) settingUp k r})
      (clockOfLock.valueFor r) := by
  have hlast : lastExecutedBy 1 settingUp = some 1 := lastExecutedBy_settingUp 1
  rw [clockOfLock, clockOfInit, ClockVector.valueFor_set, ClockVector.valueFor_set, hlast]
  split_ifs with hone hzero
  · subst hone
    refine ⟨.inr ⟨1, rfl, 1, _, rfl, rfl, rfl, .refl⟩, ?_⟩
    rintro n (rfl | ⟨k, hk, i, b, rfl, -, -, hik⟩)
    · exact Nat.zero_le 2
    · obtain rfl : 1 = k := Option.some.inj hk
      exact Nat.succ_le_succ hik.le
  · subst hzero
    -- the lock depends on the set-up
    have hprecedes : Precedes ({} : Configuration).Dependent settingUp 0 1 :=
      ⟨Nat.zero_lt_one, ⟨0, .mutexInit 2⟩, ⟨1, .mutexLock 2⟩, rfl, rfl, rfl⟩
    refine ⟨.inr ⟨1, rfl, 0, _, rfl, rfl, rfl, .single hprecedes⟩, ?_⟩
    rintro n (rfl | ⟨k, -, i, b, rfl, hb, hbr, -⟩)
    · exact Nat.zero_le 1
    · rcases getElem?_settingUp hb with ⟨rfl, -⟩ | ⟨-, rfl⟩
      · exact le_rfl
      · exact absurd hbr (by decide)
  · refine ⟨.inl rfl, ?_⟩
    rintro n (rfl | ⟨k, -, i, b, rfl, hb, hbr, -⟩)
    · exact le_rfl
    · rcases getElem?_settingUp hb with ⟨-, rfl⟩ | ⟨-, rfl⟩
      · exact absurd hbr.symm hzero
      · exact absurd hbr.symm hone

private theorem stackOfSettingUp_hasCorrectClocks :
    HasCorrectClocks {} settingUp stackOfSettingUp where
  length := rfl
  out i t item ht hitem := by
    rcases getElem?_settingUp ht with ⟨rfl, rfl⟩ | ⟨rfl, rfl⟩
    · rw [← Option.some.inj hitem]
    · rw [← Option.some.inj hitem]
  clock top htop p r runner hrunner := by
    obtain rfl := Option.some.inj htop
    by_cases hone : 1 = p
    · subst hone
      obtain rfl := Option.some.inj hrunner
      exact isGreatest_clockOfLock r
    by_cases hzero : 0 = p
    · subst hzero
      obtain rfl := Option.some.inj hrunner
      exact isGreatest_clockOfInit r
    have hcv : runner.cv = .empty := by
      have hset := (Vector.getElem?_set_ne (by decide) hone).symm.trans hrunner
      rw [Vector.getElem?_set_ne (by decide) hzero, Vector.getElem?_replicate,
        Option.ite_none_right_eq_some] at hset
      rw [← Option.some.inj hset.2]
    rw [hcv, lastExecutedBy_settingUp, if_neg hone, if_neg hzero]
    simp

/-- The set-up happens before runner `1`, and the tests say so. Runner `1` has executed something
after it, which happens before itself. -/
theorem happensBefore_tests_exact_settingUp :
    (∃ b, happensBeforeThread stackOfSettingUp 0 1 = .ok b ∧
      ((b = true ↔ HappensBeforeThread {} settingUp 0 1) ↔
        ¬ TakenForEarlier {} settingUp 0 1)) ∧
    ∃ b, threadsRaceAfter stackOfSettingUp 0 1 1 = .ok b ∧
      ((b = true ↔ RacesAfter {} settingUp 0 1 1) ↔ ¬ LastBeforeAt {} settingUp 0 1 1) :=
  (happensBefore_tests_exact_iff stackOfSettingUp_hasCorrectClocks).imp
    (fun h => h 0 1 (by decide) (by decide)) fun h => h 0 1 1 (by decide)

/-- The start of runner `0` is taken to happen before runner `1`, which has not executed
anything. -/
theorem started_before_other :
    HasCorrectClocks {} [⟨0, .threadStart⟩] startedStack ∧
      happensBeforeThread startedStack 0 1 = .ok true ∧
      ¬ HappensBeforeThread {} [⟨0, .threadStart⟩] 0 1 := by
  refine ⟨startedStack_hasCorrectClocks, rfl, ?_⟩
  rintro ⟨k, b, hb, hexec, -⟩
  obtain rfl := List.mem_singleton.mp (List.mem_of_getElem? hb)
  cases hexec

end McMini
