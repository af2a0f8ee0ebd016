import McMini.Model.Overlays

/-!
# Difference states which answer as copies

A difference state should answer as a copy of its base does which is updated in the same way.
Three things can go wrong:

* the id of a new object is computed from the number of all entries, so an entry for an object
  of the base moves it;
* a copy forgets the runners which are new;
* the state of a runner of the base is read from the base, past its entry.

`agreeAfter_iff` says that these are all. The first two are about the order of the updates
(`AdditionsFirst`, `CopiesFirst`), the third about the states the runners of the base end in
(`RunnersKept`).
-/

namespace McMini

open Foundation

/-! ### The order of the updates -/

namespace StateQueries

variable (base : StateQueries)

/-- The last state which the updates give to an object of the base. -/
def lastGiven (us : List StateUpdate) (id : ObjId) : Option VisibleObjectState :=
  ((us.filterMap base.given).filter fun g => g.1 = id).getLast?.map Prod.snd

/-- Objects and runners are added before an object of the base is given a state. -/
def AdditionsFirst (us : List StateUpdate) : Prop :=
  us.Pairwise fun u v => v.adds = true → base.given u = none

/-- The runners of the base end in the states they have in the base. -/
def RunnersKept (us : List StateUpdate) : Prop :=
  ∀ p id o, base.getObjidForRunner p = some id → base.lastGiven us id = some o →
    base.getStateOfObject id = .ok o

end StateQueries

/-- No copy is made after a runner was added. -/
def CopiesFirst (us : List StateUpdate) : Prop :=
  us.Pairwise fun u v => v = .copy → u.addsRunner = false

variable {c c' : DetachedState} {d : MutableDiffState} {u : StateUpdate}
  {us : List StateUpdate} {p : RunnerId} {i : ObjId} {o : VisibleObjectState}

/-! ### The states given to objects of the base -/

namespace StateQueries

variable {base : StateQueries}

theorem lastGiven_append (us vs : List StateUpdate) (i : ObjId) :
    base.lastGiven (us ++ vs) i = (base.lastGiven vs i).or (base.lastGiven us i) := by
  rw [lastGiven, List.filterMap_append, List.filter_append, List.getLast?_append,
    Option.map_or]
  rfl

theorem lastGiven_of_none (hu : base.given u = none) (i : ObjId) : base.lastGiven [u] i = none := by
  simp [lastGiven, hu]

theorem lastGiven_of_some {j : ObjId} (hu : base.given u = some (j, o)) (i : ObjId) :
    base.lastGiven [u] i = if j = i then some o else none := by
  rw [lastGiven, List.filterMap_cons_some hu, List.filterMap_nil, List.filter_singleton]
  by_cases hj : j = i
  · simp [hj]
  · simp [hj]

/-- An object of the base is one. -/
theorem contains_of_given {g : ObjId × VisibleObjectState} (hu : base.given u = some g) :
    base.containsObjectWithId g.1 = true := by
  have hstate : ∀ i o, base.givenState i o = some g → base.containsObjectWithId g.1 = true := by
    intro i o h
    rw [givenState] at h
    split_ifs at h with hi
    rw [← Option.some.inj h]
    exact hi.2
  cases u with
  | addStateForObj i o => exact hstate i o hu
  | addStateForRunner p t =>
    obtain ⟨i, -, hi⟩ := Option.bind_eq_some_iff.mp hu
    exact hstate i _ hi
  | _ => cases hu

end StateQueries

namespace MutableDiffState.WellFormed

/-- The entry of an object of the base is the last state it was given. -/
theorem lookup_perform_base (h : WellFormed c d) (hu : u.Contained d.queries)
    (hi : i < c.visibleObjects.length) :
    (d.perform u).1.newObjectStates.lookup i =
      (c.queries.lastGiven [u] i).or (d.newObjectStates.lookup i) := by
  have hnew : ∀ o, (d.newObjectStates.insert
      (c.visibleObjects.length + d.newObjectStates.keys.card) o).lookup i =
        d.newObjectStates.lookup i := by
    intro o
    rw [lookup_insert, if_neg (lt_of_lt_of_le hi (Nat.le_add_right _ _)).ne']
  have hobj : ∀ j o, (d.perform (.addStateForObj j o)).1.newObjectStates.lookup i =
      (c.queries.lastGiven [.addStateForObj j o] i).or (d.newObjectStates.lookup i) := by
    intro j o
    rw [perform_addStateForObj]
    by_cases hj : j ≠ objidInvalid ∧ c.queries.containsObjectWithId j = true
    · have hgiven : c.queries.given (.addStateForObj j o) = some (j, o) := if_pos hj
      rw [if_neg hj.1, StateQueries.lastGiven_of_some hgiven, lookup_insert]
      split_ifs <;> rfl
    · have hgiven : c.queries.given (.addStateForObj j o) = none := if_neg hj
      rw [StateQueries.lastGiven_of_none hgiven, Option.none_or]
      split_ifs with hinvalid
      · rfl
      · -- An entry for an object which is not one of the base.
        have hne : j ≠ i := by
          rintro rfl
          exact hj ⟨hinvalid, decide_eq_true hi⟩
        rw [lookup_insert, if_neg hne]
  cases u with
  | addObject o =>
    rw [StateQueries.lastGiven_of_none rfl, Option.none_or, ← hnew o, ← h.nextId_eq (o := o)]
    rfl
  | addRunner t =>
    obtain ⟨m, -, heq⟩ := h.addRunner_eq t
    rw [StateQueries.lastGiven_of_none rfl, Option.none_or, ← hnew (.thread t)]
    show (d.addRunner t).1.newObjectStates.lookup i = _
    rw [heq]
  | addStateForObj j o => exact hobj j o
  | addStateForRunner p t =>
    obtain ⟨j, -, -, hgiven, heq⟩ := h.addStateForRunner_eq hu
    have hlast : c.queries.lastGiven [.addStateForRunner p t] i =
        c.queries.lastGiven [.addStateForObj j (.thread t)] i := by
      rw [StateQueries.lastGiven, StateQueries.lastGiven, List.filterMap_cons,
        List.filterMap_cons, hgiven]
    rw [heq, hlast]
    exact hobj j _
  | copy =>
    rw [StateQueries.lastGiven_of_none rfl, Option.none_or]
    rfl

theorem lookup_after_base (h : WellFormed c d) (hus : d.ContainedAlong us)
    (hi : i < c.visibleObjects.length) :
    (d.after us).newObjectStates.lookup i =
      (c.queries.lastGiven us i).or (d.newObjectStates.lookup i) := by
  induction us generalizing d with
  | nil => exact (Option.none_or).symm
  | cons u us ih =>
    rw [after_cons, ih (h.perform hus.1) hus.2, h.lookup_perform_base hus.1 hi,
      ← Option.or_assoc, ← StateQueries.lastGiven_append]
    rfl

/-- No object of the base has an entry until one is given a state. -/
theorem unlaid_perform_iff (h : WellFormed c d) (hu : u.Contained d.queries) :
    (d.perform u).1.Unlaid c ↔ d.Unlaid c ∧ c.queries.given u = none := by
  constructor
  · intro hunlaid
    have hboth : ∀ i, i < c.visibleObjects.length →
        c.queries.lastGiven [u] i = none ∧ d.newObjectStates.lookup i = none := by
      intro i hi
      rw [← Option.or_eq_none_iff, ← h.lookup_perform_base hu hi]
      exact hunlaid i hi
    refine ⟨fun i hi => (hboth i hi).2, ?_⟩
    cases hgiven : c.queries.given u with
    | none => rfl
    | some g =>
      have hlt : g.1 < c.visibleObjects.length :=
        of_decide_eq_true (StateQueries.contains_of_given hgiven)
      have hlast := (hboth g.1 hlt).1
      rw [StateQueries.lastGiven_of_some hgiven, if_pos rfl] at hlast
      cases hlast
  · rintro ⟨hunlaid, hgiven⟩ i hi
    rw [h.lookup_perform_base hu hi, StateQueries.lastGiven_of_none hgiven, hunlaid i hi]
    rfl

end MutableDiffState.WellFormed

/-! ### The updates in order -/

/-- None of the updates comes too late for the difference state. -/
structure Ordered (c : DetachedState) (d : MutableDiffState) (us : List StateUpdate) : Prop where
  additionsFirst : c.queries.AdditionsFirst us
  copiesFirst : CopiesFirst us
  unlaid : ∀ u ∈ us, u.adds = true → d.Unlaid c
  uncopied : .copy ∈ us → d.newRunners.size = 0

/-- The first update is in order, and the others are in the state it leads to. -/
theorem ordered_cons_iff (h : d.WellFormed c) (hu : u.Contained d.queries) :
    Ordered c d (u :: us) ↔ (u.adds = true → d.Unlaid c) ∧
      (u = .copy → d.newRunners.size = 0) ∧ Ordered c (d.perform u).1 us := by
  constructor
  · intro ho
    have hadditions := List.pairwise_cons.mp ho.additionsFirst
    have hcopies := List.pairwise_cons.mp ho.copiesFirst
    refine ⟨ho.unlaid u List.mem_cons_self, fun hcopy => ?_, hadditions.2, hcopies.2,
      fun v hv hadds => ?_, fun hmem => ?_⟩
    · exact ho.uncopied (hcopy ▸ List.mem_cons_self)
    · rw [h.unlaid_perform_iff hu]
      exact ⟨ho.unlaid v (List.mem_cons_of_mem _ hv) hadds, hadditions.1 v hv hadds⟩
    · by_cases hcopy : u = .copy
      · subst hcopy
        exact InjectiveFunction.size_empty
      · rw [h.size_perform hcopy, hcopies.1 .copy hmem rfl,
          ho.uncopied (List.mem_cons_of_mem _ hmem)]
        rfl
  · rintro ⟨hadds, hcopy, ho⟩
    have hrunners : .copy ∈ us → u ≠ .copy → d.newRunners.size = 0 ∧ u.addsRunner = false := by
      intro hmem hne
      have hsize := ho.uncopied hmem
      rw [h.size_perform hne, Nat.add_eq_zero_iff, Bool.toNat_eq_zero] at hsize
      exact hsize
    refine ⟨List.pairwise_cons.mpr ⟨fun v hv hadd => ?_, ho.additionsFirst⟩,
      List.pairwise_cons.mpr ⟨?_, ho.copiesFirst⟩, fun v hv hadd => ?_, fun hmem => ?_⟩
    · exact ((h.unlaid_perform_iff hu).mp (ho.unlaid v hv hadd)).2
    · rintro v hv rfl
      by_cases hne : u = .copy
      · rw [hne]
        rfl
      · exact (hrunners hv hne).2
    · rcases List.mem_cons.mp hv with rfl | hv
      · exact hadds hadd
      · exact ((h.unlaid_perform_iff hu).mp (ho.unlaid v hv hadd)).1
    · by_cases hne : u = .copy
      · exact hcopy hne
      · exact (hrunners ((List.mem_cons.mp hmem).resolve_left (Ne.symm hne)) hne).1

/-- What the updates of a difference state return. -/
def MutableDiffState.answers (d : MutableDiffState) (us : List StateUpdate) :
    List (Except Failure StateUpdate.Answer) := (performAll perform d us).2

/-- And those of a detached state. -/
def DetachedState.answers (c : DetachedState) (us : List StateUpdate) :
    List (Except Failure StateUpdate.Answer) := (performAll perform c us).2

theorem MutableDiffState.answers_cons (d : MutableDiffState) (u : StateUpdate)
    (us : List StateUpdate) :
    d.answers (u :: us) = (d.perform u).2 :: (d.perform u).1.answers us := rfl

theorem DetachedState.answers_cons (c : DetachedState) (u : StateUpdate)
    (us : List StateUpdate) :
    c.answers (u :: us) = (c.perform u).2 :: (c.perform u).1.answers us := rfl

/-- Updates in order are answered alike and keep the two states together. -/
theorem Overlays.after (h : Overlays c d c') (hus : d.ContainedAlong us)
    (ho : Ordered c d us) :
    d.answers us = c'.answers us ∧ Overlays c (d.after us) (c'.after us) := by
  induction us generalizing d c' with
  | nil => exact ⟨rfl, h⟩
  | cons u us ih =>
    obtain ⟨hadds, hcopy, ho⟩ := (ordered_cons_iff h.wellFormed hus.1).mp ho
    obtain ⟨hanswer, hnext⟩ := h.perform hus.1 hadds hcopy
    obtain ⟨hanswers, hafter⟩ := ih hnext hus.2 ho
    rw [MutableDiffState.answers_cons, DetachedState.answers_cons, hanswer, hanswers]
    exact ⟨rfl, hafter⟩

/-- A runner which is added too late has another object from then on. -/
theorem Overlays.unlaid_of_addRunner (h : Overlays c d c') {t : Thread}
    (hus : (d.perform (.addRunner t)).1.ContainedAlong us) (hcopy : .copy ∉ us)
    (hrunners : ∀ p, ((d.perform (.addRunner t)).1.after us).getObjidForRunner p =
      ((c'.perform (.addRunner t)).1.after us).runnerToObjMap.lookup p) :
    d.Unlaid c := by
  have hwf := h.wellFormed.perform (u := .addRunner t) trivial
  obtain ⟨m, hm, heq⟩ := h.wellFormed.addRunner_eq t
  obtain ⟨c₁, heq', -, hm'⟩ := c'.addRunner_eq t
  have hd : (d.perform (.addRunner t)).1.newRunners.lookup c'.runnerToObjMap.size =
      some (c.visibleObjects.length + d.newObjectStates.keys.card) := by
    show (d.addRunner t).1.newRunners.lookup _ = _
    rw [heq, h.size, InjectiveFunction.lookup_of_insert h.wellFormed.lookup_next hm, if_pos rfl]
  have hc : (c'.perform (.addRunner t)).1.runnerToObjMap.lookup c'.runnerToObjMap.size =
      some c'.visibleObjects.length := by
    show (c'.addRunner t).1.runnerToObjMap.lookup _ = _
    rw [heq', InjectiveFunction.lookup_of_insert c'.lookup_size hm', if_pos rfl]
  have hsame := hrunners c'.runnerToObjMap.size
  rw [DetachedState.lookup_after hc, MutableDiffState.getObjidForRunner,
    hwf.lookup_after hus hcopy hd] at hsame
  exact h.nextId_eq_iff.mp (Option.some.inj hsame)

/-- If the two states agree in the end, the updates were in order. -/
theorem Overlays.ordered (h : Overlays c d c') (hus : d.ContainedAlong us)
    (hanswers : d.answers us = c'.answers us)
    (hcount : (d.after us).runnerCount = (c'.after us).runnerToObjMap.size)
    (hrunners : ∀ p, (d.after us).getObjidForRunner p =
      (c'.after us).runnerToObjMap.lookup p) : Ordered c d us := by
  induction us generalizing d c' with
  | nil =>
    exact ⟨List.Pairwise.nil, List.Pairwise.nil, fun u hu => (List.not_mem_nil hu).elim,
      fun hu => (List.not_mem_nil hu).elim⟩
  | cons u us ih =>
    rw [MutableDiffState.answers_cons, DetachedState.answers_cons, List.cons.injEq] at hanswers
    rw [MutableDiffState.after_cons, DetachedState.after_cons] at hcount
    have hwf := h.wellFormed.perform hus.1
    have hsize : c.runnerToObjMap.size + d.newRunners.size ≤ c'.runnerToObjMap.size := h.size.ge
    -- a copy forgets the new runners, and their count falls behind for good
    have hcopy : u = .copy → d.newRunners.size = 0 := by
      rintro rfl
      by_contra hpos
      have hlt := h.wellFormed.runnerCount_lt_of_copy hus List.mem_cons_self
        (Nat.pos_of_ne_zero hpos) hsize
      exact absurd hcount hlt.ne
    have hadds : u.adds = true → d.Unlaid c := by
      intro hadd
      cases u with
      | addObject o =>
        -- the ids which are returned agree only if no object has been laid over
        have hid : (d.addObject o).2 = c'.visibleObjects.length :=
          StateUpdate.Answer.objid.inj (Except.ok.inj hanswers.1)
        rw [h.wellFormed.nextId_eq, h.nextId_eq_iff] at hid
        exact hid
      | addRunner t =>
        refine h.unlaid_of_addRunner hus.2 (fun hmem => ?_) hrunners
        have hnew : (d.perform (.addRunner t)).1.newRunners.size = d.newRunners.size + 1 :=
          h.wellFormed.size_perform (u := .addRunner t) (by simp)
        have hpos : 0 < (d.perform (.addRunner t)).1.newRunners.size := by
          rw [hnew]
          exact Nat.succ_pos _
        have hle : c.runnerToObjMap.size + (d.perform (.addRunner t)).1.newRunners.size ≤
            (c'.perform (.addRunner t)).1.runnerToObjMap.size := by
          rw [hnew, c'.size_perform, h.size, Nat.add_assoc]
          rfl
        exact absurd hcount (hwf.runnerCount_lt_of_copy hus.2 hmem hpos hle).ne
      | addStateForObj i o => cases hadd
      | addStateForRunner p t => cases hadd
      | copy => cases hadd
    obtain ⟨-, hnext⟩ := h.perform hus.1 hadds hcopy
    exact (ordered_cons_iff h.wellFormed hus.1).mpr
      ⟨hadds, hcopy, ih hnext hus.2 hanswers.2 hcount hrunners⟩

/-! ### Agreement -/

/-- A difference state over the base and a detached state which was a copy of the base agree
after the same updates, and the base is what it was. -/
structure AgreeAfter (base : StateQueries) (c : DetachedState) (us : List StateUpdate) : Prop where
  answers : (MutableDiffState.ofState base).answers us = c.answers us
  queries : ((MutableDiffState.ofState base).after us).queries = (c.after us).queries
  base : ((MutableDiffState.ofState base).after us).baseState = base

/-- Copies and new objects and runners must come early, and the runners of the base must end
as they are in the base. -/
theorem agreeAfter_iff {base : StateQueries} (hc : c.queries = base)
    (hus : (MutableDiffState.ofState base).ContainedAlong us) :
    AgreeAfter base c us ↔
      base.AdditionsFirst us ∧ CopiesFirst us ∧ base.RunnersKept us := by
  subst hc
  have hstart : Overlays c (.ofState c.queries) c := .refl c
  -- In the end the objects of the base have the states they were given last.
  have hkept : Overlays c ((MutableDiffState.ofState c.queries).after us) (c.after us) →
      (((MutableDiffState.ofState c.queries).after us).queries = (c.after us).queries ↔
        c.queries.RunnersKept us) := by
    intro hend
    rw [hend.queries_eq_iff]
    refine forall_congr' fun p => forall_congr' fun i => ?_
    rw [forall_comm]
    refine forall_congr' fun hp => ?_
    have hi : i < c.visibleObjects.length := c.lookup_lt hp
    have hentry : ((MutableDiffState.ofState c.queries).after us).newObjectStates.lookup i =
        c.queries.lastGiven us i := by
      rw [hstart.wellFormed.lookup_after_base hus hi]
      exact (congrArg _ (Finmap.lookup_empty i)).trans Option.or_none
    have hstate : (c.after us).getStateOfObject i =
        (c.queries.lastGiven us i).elim (c.getStateOfObject i) .ok := by
      rw [← hend.getStateOfObject_eq, MutableDiffState.getStateOfObject, hentry,
        hend.wellFormed.base]
      cases c.queries.lastGiven us i <;> rfl
    rw [hstate]
    cases c.queries.lastGiven us i with
    | none => simp
    | some o => simp [DetachedState.queries]
  constructor
  · intro h
    have ho : Ordered c (.ofState c.queries) us := by
      refine hstart.ordered hus h.answers ?_ fun p => ?_
      · exact congrArg StateQueries.runnerCount h.queries
      · exact congrFun (congrArg StateQueries.getObjidForRunner h.queries) p
    exact ⟨ho.additionsFirst, ho.copiesFirst, (hkept (hstart.after hus ho).2).mp h.queries⟩
  · rintro ⟨hadditions, hcopies, hrunners⟩
    have hunlaid : (MutableDiffState.ofState c.queries).Unlaid c := fun i _ => Finmap.lookup_empty i
    have ho : Ordered c (.ofState c.queries) us :=
      ⟨hadditions, hcopies, fun _ _ _ => hunlaid, fun _ => InjectiveFunction.size_empty⟩
    obtain ⟨hanswers, hend⟩ := hstart.after hus ho
    exact ⟨hanswers, (hkept hend).mpr hrunners, hend.wellFormed.base⟩

/-- The state at `main` is copied, gets a mutex and a thread, and the mutex is locked. -/
private def addingFirst : List StateUpdate :=
  [.copy, .addObject (.mutex { currentState := .unlocked, location := 100 }),
    .addRunner ⟨.embryo⟩, .addStateForObj 1 (.mutex ⟨.locked, 100, 0⟩),
    .addStateForRunner 1 ⟨.running⟩]

private theorem containedAlong_addingFirst :
    (MutableDiffState.ofState DetachedState.atMain.queries).ContainedAlong addingFirst :=
  ⟨trivial, trivial, trivial, rfl, rfl, trivial⟩

theorem agreeAfter_addingFirst :
    AgreeAfter DetachedState.atMain.queries DetachedState.atMain addingFirst := by
  refine (agreeAfter_iff rfl containedAlong_addingFirst).mpr ⟨?_, ?_, ?_⟩
  · show List.Pairwise _ _
    decide
  · show List.Pairwise _ _
    decide
  · intro p i o hp ho
    have hnone : addingFirst.filterMap DetachedState.atMain.queries.given = [] := rfl
    rw [StateQueries.lastGiven, hnone] at ho
    cases ho

/-- The main thread exits before a mutex is added. -/
private def exitedFirst : List StateUpdate :=
  [.addStateForRunner 0 ⟨.exited⟩,
    .addObject (.mutex { currentState := .unlocked, location := 100 })]

/-- The mutex gets the id `2` in the difference state and the id `1` in the copy. -/
theorem not_agreeAfter_exitedFirst :
    (MutableDiffState.ofState DetachedState.atMain.queries).ContainedAlong exitedFirst ∧
      ¬ AgreeAfter DetachedState.atMain.queries DetachedState.atMain exitedFirst := by
  refine ⟨⟨rfl, trivial, trivial⟩, fun h => ?_⟩
  have hanswers : [Except.ok StateUpdate.Answer.done, .ok (.objid 2)] =
      ([.ok .done, .ok (.objid 1)] : List (Except Failure StateUpdate.Answer)) := h.answers
  cases hanswers

end McMini
