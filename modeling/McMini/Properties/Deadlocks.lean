import McMini.Model.Unchecked
import McMini.Properties.Depths
import McMini.Properties.ThreadLifeCycle
import McMini.Properties.UndefinedBehavior

/-!
# Deadlock verdicts

A program is in a deadlock when nobody can move, and somebody who has begun and not exited waits
for something other than its own end. `is_in_deadlock` asks something else: whether one of the
runners with a pending transition has not exited. Among these are

* runners which are known from an abandoned branch only, and are embryos on the current trace;
* the main thread at its `thread_exit`, which it never gets past.

And the question has no answer when one of the pending transitions cannot be examined. This happens
for a runner whose thread is no longer there: `sem_init` and `cond_init` set up whatever object is
registered at their address, also when it is a thread.

The trace tells what has become of each runner (`State.threadAfter`). Whatever has been executed
and taken back before, the threads in the current state are what the trace says, as long as they
are there (`State.FollowsTrace`). From this follows when the verdict is right
(`verdict_exact_iff`). States are recorded as in the source here, without a look at the object.
-/

namespace McMini

open Foundation

/-! ### What the trace says -/

/-- What the thread of the runner is after the transition. -/
def Thread.after (th : Thread) (t : Transition) (q : RunnerId) : Thread :=
  if t.op = .threadCreate q then ⟨.running⟩
  else if t.executor = q ∧ t.op.exits = true then ⟨.exited⟩
  else th

/-- What the thread of the runner is after the transitions. It was an embryo if there was none. -/
def State.threadAfter (s₀ : State) (tr : List Transition) (q : RunnerId) : Thread :=
  tr.foldl (fun th t => th.after t q) ((s₀.getStateOfRunner q).toOption.getD ⟨.embryo⟩)

/-- The runner was running at the start, or one of the transitions creates it. -/
def Begun (s₀ : State) (tr : List Transition) (q : RunnerId) : Prop :=
  s₀.Active q ∨ q ∈ createTargets tr

section Trace

variable {s₀ : State} {tr : List Transition} {t : Transition} {q : RunnerId} {th : Thread}

theorem State.threadAfter_concat :
    s₀.threadAfter (tr ++ [t]) q = (s₀.threadAfter tr q).after t q := by
  rw [threadAfter, List.foldl_append]
  rfl

theorem State.threadAfter_nil (h : s₀.HasThread q th) : s₀.threadAfter [] q = th := by
  rw [threadAfter, List.foldl_nil, State.getStateOfRunner_eq_ok.mpr h]
  rfl

theorem Thread.after_create (hop : t.op = .threadCreate q) : th.after t q = ⟨.running⟩ := if_pos hop

theorem Thread.after_exits (hq : t.executor = q) (hexits : t.op.exits = true) :
    th.after t q = ⟨.exited⟩ := by
  rw [after, if_neg (fun hop => by rw [hop] at hexits; cases hexits), if_pos ⟨hq, hexits⟩]

/-- A thread is running after a transition which creates it, or when it was running and the
transition does not end it. -/
theorem Thread.after_eq_running : th.after t q = ⟨.running⟩ ↔
    t.op = .threadCreate q ∨ th = ⟨.running⟩ ∧ ¬ (t.executor = q ∧ t.op.exits = true) := by
  unfold after
  by_cases hop : t.op = .threadCreate q
  · simp only [hop, if_true, true_or]
  by_cases hexits : t.executor = q ∧ t.op.exits = true
  · simp [hop, hexits]
  · simp only [hop, hexits, if_false, false_or, not_false_eq_true, and_true]

/-- After the transitions, a runner is running exactly when it has begun and not exited. -/
theorem State.threadAfter_eq_running : s₀.threadAfter tr q = ⟨.running⟩ ↔
    Begun s₀ tr q ∧ s₀.threadAfter tr q ≠ ⟨.exited⟩ := by
  induction tr using List.reverseRecOn with
  | nil =>
    constructor
    · intro h
      refine ⟨.inl ?_, h.trans_ne (by decide)⟩
      rw [threadAfter, List.foldl_nil] at h
      cases hstate : s₀.getStateOfRunner q with
      | error e =>
        rw [hstate] at h
        cases h
      | ok th =>
        rw [hstate] at h
        obtain rfl : th = ⟨.running⟩ := h
        exact State.getStateOfRunner_eq_ok.mp hstate
    · rintro ⟨hactive | hcreated, -⟩
      · exact threadAfter_nil hactive
      · cases hcreated
  | append_singleton tr t ih =>
    rw [threadAfter_concat, Begun, createTargets_append, List.mem_append, ← or_assoc, ← Begun,
      Thread.after_eq_running, ih]
    have hcreated : q ∈ createTargets [t] ↔ t.op = .threadCreate q := by
      rw [mem_createTargets]
      simp
    rw [hcreated]
    by_cases hop : t.op = .threadCreate q
    · simp [hop, Thread.after_create hop]
    by_cases hexits : t.executor = q ∧ t.op.exits = true
    · simp [hop, hexits, Thread.after_exits hexits.1 hexits.2]
    · simp [hop, hexits, Thread.after]

end Trace

/-! ### What a transition makes of the threads -/

/-- The runner has an object, whatever it is. -/
def State.Knows (u : State) (q : RunnerId) : Prop :=
  ∃ i o, u.objidForRunner q = some i ∧ u.objectState i = some o

/-- The object of the runner is there, and is not a thread. -/
def State.Lost (u : State) (q : RunnerId) : Prop :=
  ∃ i o, u.objidForRunner q = some i ∧ u.objectState i = some o ∧ o.objectType ≠ .thread

theorem State.HasThread.knows {u : State} {q : RunnerId} {th : Thread} (h : u.HasThread q th) :
    u.Knows q := by
  obtain ⟨i, hi, ho⟩ := h
  exact ⟨i, _, hi, ho⟩

theorem State.ExtendedBy.knows {u u' : State} {q : RunnerId} (h : u.ExtendedBy u')
    (hq : u.Knows q) : u'.Knows q := by
  obtain ⟨i, o, hi, ho⟩ := hq
  exact ⟨i, o, h.runners q i hi, h.objects i o ho⟩

/-- A state which knows more has the same threads for the runners which are known. -/
theorem State.ExtendedBy.hasThread_of_knows {u u' : State} {q : RunnerId} {th : Thread}
    (h : u.ExtendedBy u') (hq : u.Knows q) (hth : u'.HasThread q th) : u.HasThread q th := by
  obtain ⟨i, o, hi, ho⟩ := hq
  obtain ⟨j, hj, hthread⟩ := hth
  obtain rfl : i = j := Option.some.inj ((h.runners q i hi).symm.trans hj)
  obtain rfl : o = .thread th := Option.some.inj ((h.objects i o ho).symm.trans hthread)
  exact ⟨i, hi, ho⟩

theorem State.knows_iff {u : State} {q : RunnerId} :
    u.Knows q ↔ (∃ th, u.HasThread q th) ∨ u.Lost q := by
  constructor
  · rintro ⟨i, o, hi, ho⟩
    by_cases htype : o.objectType = .thread
    · obtain ⟨th, rfl⟩ := VisibleObjectState.objectType_eq_thread.mp htype
      exact .inl ⟨th, i, hi, ho⟩
    · exact .inr ⟨i, o, hi, ho, htype⟩
  · rintro (⟨th, hth⟩ | ⟨i, o, hi, ho, -⟩)
    · exact hth.knows
    · exact ⟨i, o, hi, ho⟩

namespace Unchecked

variable {s : State} {t : Transition} {d : DiffState} {i : ObjId} {q : RunnerId} {th : Thread}

theorem hasThread_of_create (h : applyTo t s = .ok (d, .exists')) (hop : t.op = .threadCreate q) :
    d.toState.HasThread q ⟨.running⟩ := by
  rcases step_or_setsUp h with hstep | ⟨i, o, hset, heq⟩
  · obtain ⟨i, hi, htype⟩ := hstep.wellTyped.target (Operation.target_eq_some.mpr (.inl hop))
    obtain ⟨o, ho, hthread⟩ := Option.map_eq_some_iff.mp htype
    obtain ⟨th, rfl⟩ := VisibleObjectState.objectType_eq_thread.mp hthread
    obtain ⟨th', hth', heffect⟩ := hstep.thread ⟨i, hi, ho⟩
    cases heffect with
    | unrelated hne => exact absurd hop hne
    | create _ => exact hth'
    | exit _ _ hne => exact absurd hop hne
  · rw [heq]
    cases hset with
    | conditionVariable hop' => cases hop.symm.trans hop'
    | semaphore hop' => cases hop.symm.trans hop'
    | thread hop' hi =>
      obtain rfl := Operation.threadCreate.inj (hop.symm.trans hop')
      exact ⟨i, hi, State.setObjectState_self⟩

theorem hasThread_of_exits (h : applyTo t s = .ok (d, .exists')) (hexits : t.op.exits = true) :
    d.toState.HasThread t.executor ⟨.exited⟩ := by
  rcases step_or_setsUp h with hstep | ⟨i, o, hset, -⟩
  · generalize d.toState = u at hstep
    cases hstep with
    | threadExit ha hmain | processExit ha =>
      obtain ⟨-, hth⟩ | ⟨hne, -⟩ := ha.setThread ha ⟨.exited⟩
      · exact hth
      · exact absurd rfl hne
    | _ => cases hexits
  · cases hset with
    | conditionVariable hop | semaphore hop | thread hop => rw [hop] at hexits; cases hexits

/-- The transition neither creates the runner whose object it is, nor ends it. -/
def Spares (t : Transition) (s : State) (i : ObjId) : Prop :=
  ∀ q, s.objidForRunner q = some i →
    t.op ≠ .threadCreate q ∧ ¬ (t.executor = q ∧ t.op.exits = true)

/-- What the transition spares it leaves alone, or it is no thread any more. -/
theorem objectState_of_spares (h : applyTo t s = .ok (d, .exists')) (hspares : Spares t s i) :
    d.toState.objectState i = s.objectState i ∨
      ∃ o, d.toState.objectState i = some o ∧ o.objectType ≠ .thread := by
  rcases step_or_setsUp h with hstep | ⟨j, o, hset, heq⟩
  · by_cases hi : i ∈ t.writes s.objidForRunner
    · rcases hi with ⟨ty, hty⟩ | ⟨hexits, hi⟩ | ⟨q, hq, hi⟩
      · have htype := (hstep.objectType_eq i).trans (hstep.wellTyped.operand hty)
        obtain ⟨o, ho, rfl⟩ := Option.map_eq_some_iff.mp htype
        exact .inr ⟨o, ho, Operation.operand_ne_thread hty⟩
      · exact absurd ⟨rfl, hexits⟩ (hspares _ hi).2
      · exact absurd (Operation.created_eq_some.mp hq) (hspares q hi).1
    · exact .inl (hstep.frame hi)
  · rw [heq, State.setObjectState_objectState]
    split_ifs with hij
    · subst hij
      refine .inr ⟨o, rfl, ?_⟩
      cases hset with
      | conditionVariable _ | semaphore _ => simp
      | thread hop hi => exact absurd hop (hspares _ hi).1
    · exact .inl rfl

theorem knows_of_applyTo (h : applyTo t s = .ok (d, .exists')) (hq : s.Knows q) :
    d.toState.Knows q := by
  obtain ⟨i, o, hi, ho⟩ := hq
  have hbase := baseState_of_applyTo h
  have hi' : d.toState.objidForRunner q = some i := by rw [← hi, ← hbase]; rfl
  have ho' : d.toState.objectState i = (d.newObjectStates.lookup i).or (some o) := by
    rw [← ho, ← hbase]
    rfl
  cases hnew : d.newObjectStates.lookup i with
  | none => exact ⟨i, o, hi', by rw [ho', hnew, Option.none_or]⟩
  | some o' => exact ⟨i, o', hi', by rw [ho', hnew, Option.some_or]⟩

/-- The threads after a transition. -/
theorem hasThread_of_applyTo (h : applyTo t s = .ok (d, .exists')) (hq : d.toState.HasThread q th) :
    t.op = .threadCreate q ∧ th = ⟨.running⟩ ∨ ∃ th₀, s.HasThread q th₀ ∧ th = th₀.after t q := by
  by_cases hop : t.op = .threadCreate q
  · exact .inl ⟨hop, hq.unique (hasThread_of_create h hop)⟩
  by_cases hexits : t.executor = q ∧ t.op.exits = true
  · obtain ⟨rfl, hexits⟩ := hexits
    have hactive := (applyTo_eq_ok_exists.mp h).1
    refine .inr ⟨_, hactive, ?_⟩
    rw [Thread.after_exits rfl hexits]
    exact hq.unique (hasThread_of_exits h hexits)
  -- the object is what it was, since it is still a thread
  obtain ⟨i, hi, ho⟩ := hq
  have hi' : s.objidForRunner q = some i := baseState_of_applyTo h ▸ hi
  have hspares : Spares t s i := by
    intro r hr
    obtain rfl := s.objidForRunner_injective hr hi'
    exact ⟨hop, hexits⟩
  rcases objectState_of_spares h hspares with hsame | ⟨o, ho', htype⟩
  · refine .inr ⟨th, ⟨i, hi', hsame.symm.trans ho⟩, ?_⟩
    rw [Thread.after, if_neg hop, if_neg hexits]
  · obtain rfl := Option.some.inj (ho'.symm.trans ho)
    exact absurd rfl htype

end Unchecked

namespace StateSequence

variable {s : StateSequence} {layers : List Layer} {r₀ : ℕ} {q : RunnerId} {th : Thread}
  {t : Transition} {d : DiffState}

/-- The thread of a runner which the current state does not know has been left an embryo. -/
theorem Layered.last_of_not_knows (h : s.Layered r₀ layers) {i : ObjId} {v : VisibleObject}
    (hi : s.runnerToObjMap.lookup q = some i) (hv : s.visibleObjects[i]? = some v)
    (hq : ¬ s.toState.Knows q) : v.history.getLast v.history_ne_nil = .thread ⟨.embryo⟩ := by
  obtain ⟨init, l, rfl, -, hl⟩ := h.split
  have hmem : l ∈ init ++ [l] := List.mem_append_right _ (List.mem_singleton_self l)
  have hle : l.runners ≤ q := by
    by_contra hlt
    have hknows := h.exists_object hmem (not_le.mp hlt)
    rw [hl] at hknows
    exact hq hknows
  have hout : l.objects ≤ i := by
    by_contra hlt
    exact absurd (((h.valid l hmem).owned q i hi).mpr (not_le.mp hlt)) (not_lt.mpr hle)
  obtain ⟨w, hw, hfirst⟩ := h.discovered q i ((h.initial l hmem).trans hle) hi
  obtain rfl : v = w := Option.some.inj (hv.symm.trans hw)
  -- it has been in its first state ever since
  have hindex : v.getLastStateIndex = 0 := by
    cases hn : s.representative.visibleObjectIndices.lookup i with
    | none => rw [VisibleObject.getLastStateIndex, h.unseen i v hv hn]
    | some n =>
      obtain ⟨w, hw, rfl⟩ := h.current i n hn
      obtain rfl : v = w := Option.some.inj (hv.symm.trans hw)
      exact ((h.valid l hmem).added i _ hout (hl ▸ hn)).1
  have hlast := v.history_getLastStateIndex
  rw [hindex, hfirst] at hlast
  exact (Option.some.inj hlast).symm

/-- What a recorded state comes to know are embryos. -/
theorem Layered.embryo_of_record (h : s.Layered r₀ layers)
    (happly : Unchecked.applyTo t s.toState = .ok (d, .exists'))
    (hth : (s.record d).toState.HasThread q th) (hq : ¬ d.toState.Knows q) : th = ⟨.embryo⟩ := by
  obtain ⟨i, hi, ho⟩ := hth
  have hmap : s.runnerToObjMap.lookup q = some i := by
    rw [← (continues_record s d).runners]
    exact (stateAt_objidForRunner.mp hi).2
  rw [record_objectState] at ho
  obtain ⟨v, hv, hstate⟩ := Option.map_eq_some_iff.mp ho
  have hlast := h.last_of_not_knows hmap hv fun hknows => hq (Unchecked.knows_of_applyTo happly hknows)
  cases hnew : d.newObjectStates.lookup i with
  | none =>
    rw [hnew, Option.getD_none, hlast] at hstate
    exact (VisibleObjectState.thread.inj hstate).symm
  | some o =>
    rw [hnew, Option.getD_some] at hstate
    subst hstate
    have ho' : d.toState.objectState i = some (.thread th) := by
      show (d.newObjectStates.lookup i).or _ = _
      rw [hnew, Option.some_or]
    -- no runner of the current state has this object
    have hspares : Unchecked.Spares t s.toState i := by
      intro r hr
      have hr' := (stateAt_objidForRunner.mp hr).2
      obtain rfl : r = q := InjectiveFunction.lookup_injective hr' hmap
      have hobject : d.toState.objidForRunner r = some i := by
        rw [← hr, ← Unchecked.baseState_of_applyTo happly]
        rfl
      exact absurd ⟨i, _, hobject, ho'⟩ hq
    rcases Unchecked.objectState_of_spares happly hspares with hsame | ⟨o, ho'', htype⟩
    · obtain ⟨w, hw, hthread⟩ := h.last_of_objectState (hsame.symm.trans ho')
      obtain rfl : v = w := Option.some.inj (hv.symm.trans hw)
      exact (VisibleObjectState.thread.inj (hlast.symm.trans hthread)).symm
    · obtain rfl := Option.some.inj (ho''.symm.trans ho')
      exact absurd rfl htype

end StateSequence

/-! ### States which follow the trace -/

/-- The threads in the state are what the trace says, and the state knows the runners which are
more than embryos. -/
structure State.FollowsTrace (s₀ : State) (tr : List Transition) (u : State) : Prop where
  threads : ∀ q th, u.HasThread q th → th = s₀.threadAfter tr q
  known : ∀ q, s₀.threadAfter tr q ≠ ⟨.embryo⟩ → u.Knows q

namespace State.FollowsTrace

variable {s₀ u u' : State} {tr : List Transition} {t : Transition} {d : DiffState}

theorem self (s₀ : State) : State.FollowsTrace s₀ [] s₀ := by
  refine ⟨fun q th hth => (State.threadAfter_nil hth).symm, fun q hq => ?_⟩
  rw [State.threadAfter, List.foldl_nil] at hq
  cases hstate : s₀.getStateOfRunner q with
  | error e =>
    rw [hstate] at hq
    exact absurd rfl hq
  | ok th => exact (State.getStateOfRunner_eq_ok.mp hstate).knows

theorem applyTo (h : State.FollowsTrace s₀ tr u)
    (happly : Unchecked.applyTo t u = .ok (d, .exists')) :
    State.FollowsTrace s₀ (tr ++ [t]) d.toState := by
  refine ⟨fun q th hth => ?_, fun q hq => ?_⟩
  · rw [State.threadAfter_concat]
    rcases Unchecked.hasThread_of_applyTo happly hth with ⟨hop, rfl⟩ | ⟨th₀, hth₀, rfl⟩
    · exact (Thread.after_create hop).symm
    · rw [h.threads q th₀ hth₀]
  · rw [State.threadAfter_concat] at hq
    by_cases hop : t.op = .threadCreate q
    · exact (Unchecked.hasThread_of_create happly hop).knows
    by_cases hexits : t.executor = q ∧ t.op.exits = true
    · exact hexits.1 ▸ (Unchecked.hasThread_of_exits happly hexits.2).knows
    · rw [Thread.after, if_neg hop, if_neg hexits] at hq
      exact Unchecked.knows_of_applyTo happly (h.known q hq)

/-- A state which knows more follows the trace as well, when what it has come to know are
embryos. -/
theorem extend (h : State.FollowsTrace s₀ tr u) (hext : u.ExtendedBy u')
    (hnew : ∀ q th, u'.HasThread q th → ¬ u.Knows q → th = ⟨.embryo⟩) :
    State.FollowsTrace s₀ tr u' := by
  refine ⟨fun q th hth => ?_, fun q hq => hext.knows (h.known q hq)⟩
  by_cases hq : u.Knows q
  · exact h.threads q th (hext.hasThread_of_knows hq hth)
  · rw [hnew q th hth hq]
    by_contra hne
    exact hq (h.known q fun hembryo => hne hembryo.symm)

end State.FollowsTrace

namespace Program

/-- At every depth the threads are what the trace up to there says. -/
def FollowsTrace (s₀ : State) (p : Program) : Prop :=
  ∀ i u, p.stateSeq.stateAtDepth i = some u → State.FollowsTrace s₀ (p.trace.take i) u

variable {p p' : Program} {s₀ u u' : State} {i n r₀ : ℕ} {q : RunnerId} {t : Transition}
  {runners runners' : List ℕ} {th : Thread}

/-- The depths which remain stay as they are, when their states at most get to know more. -/
theorem FollowsTrace.keep (hfollows : FollowsTrace s₀ p) (h : p.Deep r₀ runners)
    (h' : p'.Deep r₀ runners') (hi : i ≤ p.trace.length) (hrunners : runners'[i]? = runners[i]?)
    (htrace : p'.trace.take i = p.trace.take i)
    (hstates : ∀ u, p.stateSeq.stateAtDepth i = some u →
      ∃ u', p'.stateSeq.stateAtDepth i = some u' ∧ u.ExtendedBy u')
    (hu' : p'.stateSeq.stateAtDepth i = some u') :
    State.FollowsTrace s₀ (p'.trace.take i) u' := by
  obtain ⟨u, hu⟩ := h.exists_stateAtDepth hi
  obtain ⟨v, hv, hext⟩ := hstates u hu
  obtain rfl : u' = v := Option.some.inj (hu'.symm.trans hv)
  rw [htrace]
  refine (hfollows i u hu).extend hext fun q th hth hq => ?_
  by_contra hbegun
  exact hq (h.hasThread_of_extendedBy h' hrunners hu hu' hext hth hbegun).knows

/-- Executing a transition adds a depth, at which it has been executed. -/
theorem FollowsTrace.execute (hfollows : FollowsTrace s₀ p) (h : p.Deep r₀ runners)
    (hmodel : Unchecked.modelExecutionOf p q t = .ok p') :
    (∃ runners', p'.Deep r₀ runners') ∧ FollowsTrace s₀ p' := by
  obtain ⟨hexecutor, next, s', -, hfollow, rfl⟩ := modelExecutionBy_eq_ok.mp hmodel
  obtain ⟨d, happly, howned, rfl⟩ := Unchecked.follow_eq_exists hfollow
  have h' := h.record d next hexecutor
  obtain ⟨layers, hlayers, -⟩ := h.layers
  refine ⟨⟨_, h'⟩, fun i u' hu' => ?_⟩
  by_cases hi : i ≤ p.trace.length
  · refine hfollows.keep h h' hi ?_ (List.take_append_of_le_length hi)
      (fun u hu => StateSequence.enriched_record _ d i u hu) hu'
    rw [List.getElem?_append_left]
    rw [h.length_runners]
    omega
  · have hlength : i = (p.trace ++ [next]).length := by
      have hle := h'.le_of_stateAtDepth hu'
      rw [List.length_append, List.length_singleton] at hle ⊢
      omega
    subst hlength
    obtain rfl := Option.some.inj (hu'.symm.trans h'.stateAtDepth_length)
    have hnow := hfollows _ _ h.stateAtDepth_length
    rw [List.take_length] at hnow ⊢
    have hext := hlayers.extendedBy_record (Unchecked.baseState_of_applyTo happly)
      (Unchecked.owned_iff.mp howned)
    exact (hnow.applyTo happly).extend hext fun q th hth => hlayers.embryo_of_record happly hth

/-- Going back leaves the depths up to the one it goes back to. -/
theorem FollowsTrace.restore (hfollows : FollowsTrace s₀ p) (h : p.Deep r₀ runners)
    (hrestore : p.restoreModelAtDepth n = (p', .ok ())) :
    (∃ runners', p'.Deep r₀ runners') ∧ FollowsTrace s₀ p' := by
  obtain ⟨h', hstates, htrace, -, -⟩ := h.restoreModelAtDepth hrestore
  refine ⟨⟨_, h'⟩, fun i u' hu' => ?_⟩
  have hle := h'.le_of_stateAtDepth hu'
  rw [htrace, List.length_take] at hle
  have hi : i ≤ n := by omega
  refine hfollows.keep h h' (by omega) ?_ ?_ (fun u hu => ⟨u, (hstates i hi).trans hu, .refl u⟩) hu'
  · rw [List.getElem?_take_of_lt (Nat.lt_succ_of_le hi)]
  · rw [htrace, List.take_take, min_eq_left hi]

end Program

/-! ### What the calls keep -/

section Calls

variable {source : ProcessSource} {c c' c₀ : Coordinator} {p : RunnerId} {s₀ : State}

/-- The model of the coordinator has depths, at which the threads are what the trace says. -/
def Coordinator.FollowsTrace (s₀ : State) (c : Coordinator) : Prop :=
  (∃ r₀ runners, c.currentProgramModel.Deep r₀ runners) ∧ c.currentProgramModel.FollowsTrace s₀

/-- Going back has restored the model. -/
def RestoresModel (c : Coordinator) : CoordinatorCall → Prop
  | .executeRunner _ => True
  | .returnToDepth n => (c.currentProgramModel.restoreModelAtDepth n).2 = .ok ()

theorem Adds.followsTrace (h : Adds c c') (hc : c.FollowsTrace s₀) : c'.FollowsTrace s₀ := by
  obtain ⟨⟨r₀, runners, hdeep⟩, hfollows⟩ := hc
  obtain ⟨hdeep', htrace, hstates, -⟩ := h.deep hdeep
  refine ⟨⟨r₀, runners, hdeep'⟩, fun i u hu => ?_⟩
  have hi : i ≤ c'.getTrace.length := hdeep'.le_of_stateAtDepth hu
  rw [htrace] at hi
  exact hfollows.keep hdeep hdeep' hi rfl (congrArg (List.take i) htrace) (hstates i) hu

/-- A call adds to the model and then executes a transition in it, unless it throws before. -/
theorem Unchecked.executeRunner_cases (source : ProcessSource) (p : RunnerId) (c : Coordinator) :
    ∃ c₁, Adds (c.afterProcess p) c₁ ∧ (((executeRunner source p).run c).2 = c₁ ∨
      ∃ t program, modelExecutionOf c₁.currentProgramModel p t = .ok program ∧
        ((executeRunner source p).run c).2 = { c₁ with currentProgramModel := program }) := by
  rw [executeRunner, run_bind, processExecute_run]
  cases source c.executed p with
  | error e => exact ⟨_, .nothing, .inl rfl⟩
  | ok contents =>
    have hadds := callback_adds p contents (c.afterProcess p)
    dsimp only
    rw [run_bind]
    rcases hcallback : (callback p contents).run (c.afterProcess p) with ⟨e | t, c₁⟩ <;>
      rw [hcallback] at hadds
    · exact ⟨c₁, hadds, .inl rfl⟩
    · refine ⟨c₁, hadds, ?_⟩
      dsimp only
      rw [run_bind, run_get]
      dsimp only
      cases hmodel : modelExecutionOf c₁.currentProgramModel p t with
      | error e => exact .inl rfl
      | ok program => exact .inr ⟨t, program, hmodel, rfl⟩

theorem returnToDepth_snd (source : ProcessSource) (n : ℕ) (c : Coordinator) :
    ((returnToDepth source n).run c).2.currentProgramModel =
      (c.currentProgramModel.restoreModelAtDepth n).1 := by
  rw [returnToDepth_run]
  cases (c.currentProgramModel.restoreModelAtDepth n).2 with
  | error e => rfl
  | ok u =>
    dsimp only
    split_ifs
    · rfl
    · exact replay_currentProgramModel source _ _

theorem Coordinator.FollowsTrace.apply (hc : c.FollowsTrace s₀) {call : CoordinatorCall}
    (hcall : RestoresModel c call) : (Unchecked.apply source call c).2.FollowsTrace s₀ := by
  cases call with
  | executeRunner p =>
    show ((Unchecked.executeRunner source p).run c).2.FollowsTrace s₀
    have hprocess : (c.afterProcess p).FollowsTrace s₀ := hc
    obtain ⟨c₁, hadds, hcase⟩ := Unchecked.executeRunner_cases source p c
    have hadded := hadds.followsTrace hprocess
    rcases hcase with heq | ⟨t, program, hmodel, heq⟩
    · rw [heq]
      exact hadded
    · obtain ⟨⟨r₀, runners, hdeep⟩, hfollows⟩ := hadded
      obtain ⟨hdeep', hfollows'⟩ := hfollows.execute hdeep hmodel
      rw [heq]
      exact ⟨⟨r₀, hdeep'⟩, hfollows'⟩
  | returnToDepth n =>
    obtain ⟨⟨r₀, runners, hdeep⟩, hfollows⟩ := hc
    have hrestore : c.currentProgramModel.restoreModelAtDepth n =
        (((returnToDepth source n).run c).2.currentProgramModel, .ok ()) := by
      rw [returnToDepth_snd]
      exact Prod.ext rfl hcall
    obtain ⟨hdeep', hfollows'⟩ := hfollows.restore hdeep hrestore
    exact ⟨⟨r₀, hdeep'⟩, hfollows'⟩

theorem Coordinator.Initial.followsTrace (h : c₀.Initial) :
    c₀.FollowsTrace c₀.getStateSequence.toState := by
  refine ⟨⟨_, _, h.deep⟩, fun i u hu => ?_⟩
  have hi := h.deep.le_of_stateAtDepth hu
  rw [h.trace] at hi ⊢
  obtain rfl : i = 0 := Nat.le_zero.mp hi
  have hstate := h.deep.stateAtDepth_length
  rw [h.trace] at hstate
  obtain rfl := Option.some.inj (hstate.symm.trans hu)
  exact .self _

theorem followsTrace_explore (h : c₀.Initial) {history : List CoordinatorCall}
    (hhistory : ∀ pre call, pre ++ [call] <+: history →
      RestoresModel (Unchecked.explore source c₀ pre) call) :
    (Unchecked.explore source c₀ history).FollowsTrace c₀.getStateSequence.toState := by
  induction history using List.reverseRecOn with
  | nil => exact h.followsTrace
  | append_singleton history call ih =>
    obtain ⟨hbefore, hcall⟩ := forall_prefix_concat.mp hhistory
    rw [Unchecked.explore_concat]
    exact (ih hbefore).apply hcall

end Calls

/-! ### Verdicts -/

namespace Program

/-- The runner has begun and not exited, and is about to execute something other than its own
end. -/
structure Blocked (s₀ : State) (p : Program) (q : RunnerId) : Prop where
  begun : Begun s₀ p.trace q
  notExited : s₀.threadAfter p.trace q ≠ ⟨.exited⟩
  pending : ∃ t, p.nextSteps.lookup q = some t ∧ t.op.exits = false

/-- A pending transition is enabled. -/
def CanMove (p : Program) : Prop :=
  ∃ q t, p.nextSteps.lookup q = some t ∧ Unchecked.isEnabledIn t p.stateSeq.toState = .ok true

/-- Nobody can move, and somebody is blocked. -/
def Deadlocked (s₀ : State) (p : Program) : Prop := ¬ p.CanMove ∧ ∃ q, p.Blocked s₀ q

/-- Of every pending transition it can be found out whether it is enabled. -/
def Examinable (p : Program) : Prop :=
  ∀ q t, p.nextSteps.lookup q = some t →
    ∃ b, Unchecked.isEnabledIn t p.stateSeq.toState = .ok b

/-- The runner is running, and about to execute something other than its own end. -/
def MidRun (p : Program) (q : RunnerId) : Prop :=
  p.stateSeq.toState.Active q ∧ ∃ t, p.nextSteps.lookup q = some t ∧ t.op.exits = false

/-- The runner would be running, had its thread not been overwritten, and is about to execute
something other than its own end. -/
def LostMidRun (s₀ : State) (p : Program) (q : RunnerId) : Prop :=
  (p.stateSeq.toState.Lost q ∧ s₀.threadAfter p.trace q = ⟨.running⟩) ∧
    ∃ t, p.nextSteps.lookup q = some t ∧ t.op.exits = false

/-- When `is_in_deadlock` is right: a transition is enabled; or all can be examined, and their
runners have all exited or one of them is in the middle of its run; or not all can be examined,
and nobody is in the middle of its run, nor would be. -/
def VerdictExact (s₀ : State) (p : Program) : Prop :=
  p.CanMove ∨
    (p.Examinable ∧ ((∀ q t, p.nextSteps.lookup q = some t →
      p.stateSeq.toState.HasThread q ⟨.exited⟩) ∨ ∃ q, p.MidRun q)) ∨
    (¬ p.Examinable ∧ ∀ q, ¬ p.MidRun q ∧ ¬ p.LostMidRun s₀ q)

variable {p : Program} {s₀ : State} {q : RunnerId}

/-- Whoever has begun and not exited is running, unless its thread has been overwritten. -/
theorem blocked_iff (h : State.FollowsTrace s₀ p.trace p.stateSeq.toState) :
    p.Blocked s₀ q ↔ p.MidRun q ∨ p.LostMidRun s₀ q := by
  rw [MidRun, LostMidRun, ← or_and_right]
  constructor
  · rintro ⟨hbegun, hexited, hpending⟩
    have hrunning := State.threadAfter_eq_running.mpr ⟨hbegun, hexited⟩
    refine ⟨?_, hpending⟩
    rcases State.knows_iff.mp (h.known q (hrunning.trans_ne (by decide))) with ⟨th, hth⟩ | hlost
    · obtain rfl := (h.threads q th hth).trans hrunning
      exact .inl hth
    · exact .inr ⟨hlost, hrunning⟩
  · rintro ⟨hcase, hpending⟩
    have hrunning : s₀.threadAfter p.trace q = ⟨.running⟩ := by
      rcases hcase with hactive | ⟨-, hrunning⟩
      · exact (h.threads q _ hactive).symm
      · exact hrunning
    obtain ⟨hbegun, hexited⟩ := State.threadAfter_eq_running.mp hrunning
    exact ⟨hbegun, hexited, hpending⟩

theorem allDisabledBy_iff_examinable :
    p.AllDisabledBy (Unchecked.isEnabledIn · p.stateSeq.toState) ↔
      p.Examinable ∧ ¬ p.CanMove := by
  constructor
  · intro h
    refine ⟨fun q t ht => ⟨false, h q t ht⟩, ?_⟩
    rintro ⟨q, t, ht, henabled⟩
    cases (h q t ht).symm.trans henabled
  · rintro ⟨hexaminable, hmove⟩ q t ht
    obtain ⟨b, hb⟩ := hexaminable q t ht
    cases b with
    | false => exact hb
    | true => exact absurd ⟨q, t, ht, hb⟩ hmove

/-- A runner whose pending transition can be examined has its thread. -/
theorem Examinable.not_lostMidRun (h : p.Examinable) (hkeyed : p.Keyed) : ¬ p.LostMidRun s₀ q := by
  rintro ⟨⟨⟨i, o, hi, ho, htype⟩, -⟩, t, ht, -⟩
  obtain ⟨b, hb⟩ := h q t ht
  obtain ⟨th, hth⟩ := Unchecked.getStateOfRunner_of_isEnabledIn hb
  rw [hkeyed q t ht] at hth
  obtain ⟨j, hj, hthread⟩ := State.getStateOfRunner_eq_ok.mp hth
  obtain rfl : i = j := Option.some.inj (hi.symm.trans hj)
  obtain rfl : o = .thread th := Option.some.inj (ho.symm.trans hthread)
  exact htype rfl

/-- The verdict is right where the threads are what the trace says. -/
theorem verdict_iff (hkeyed : p.Keyed) (h : State.FollowsTrace s₀ p.trace p.stateSeq.toState) :
    (Unchecked.isInDeadlock p = .ok true ↔ p.Deadlocked s₀) ↔ p.VerdictExact s₀ := by
  have hblocked : (∃ q, p.Blocked s₀ q) ↔ (∃ q, p.MidRun q) ∨ ∃ q, p.LostMidRun s₀ q := by
    rw [← exists_or]
    exact exists_congr fun _ => blocked_iff h
  have hleft : (∃ q, p.MidRun q) → ∃ q t, p.nextSteps.lookup q = some t ∧
      ¬ p.stateSeq.toState.HasThread q ⟨.exited⟩ := by
    rintro ⟨q, hactive, t, ht, -⟩
    refine ⟨q, t, ht, fun hexited => ?_⟩
    cases hexited.unique hactive
  have hexited : (∀ q t, p.nextSteps.lookup q = some t →
      p.stateSeq.toState.HasThread q ⟨.exited⟩) ↔ ¬ ∃ q t, p.nextSteps.lookup q = some t ∧
      ¬ p.stateSeq.toState.HasThread q ⟨.exited⟩ := by
    simp only [not_exists, not_and, not_not]
  have hexamines : p.ExaminesExecutors (Unchecked.isEnabledIn · p.stateSeq.toState) :=
    fun _ _ => Unchecked.getStateOfRunner_of_isEnabledIn
  have hanswer := isInDeadlockBy_eq_ok_true hexamines hkeyed
  rw [Unchecked.isInDeadlock, hanswer, allDisabledBy_iff_examinable, Deadlocked, hblocked,
    VerdictExact, hexited, forall_and, ← not_exists, ← not_exists]
  by_cases hmove : p.CanMove
  · simp only [hmove, not_true_eq_false, and_false, false_and, true_or]
  by_cases hexaminable : p.Examinable
  · have hlost : ¬ ∃ q, p.LostMidRun s₀ q := fun ⟨_, hq⟩ => hexaminable.not_lostMidRun hkeyed hq
    simp only [hmove, hexaminable, hlost, not_false_eq_true, and_self, true_and, false_or, or_false,
      not_true_eq_false, false_and]
    exact ⟨fun hiff => or_iff_not_imp_left.mpr fun hnot => hiff.mp (not_not.mp hnot),
      fun hcase => ⟨fun hsome => hcase.resolve_left (not_not.mpr hsome), hleft⟩⟩
  · simp only [hmove, hexaminable, not_false_eq_true, false_and, true_and, false_or, false_iff,
      not_or]

end Program

/-- **When the deadlock verdict is exact.** -/
theorem verdict_exact_iff {source : ProcessSource} {c₀ : Coordinator} (h : c₀.Initial)
    {history : List CoordinatorCall}
    (hhistory : ∀ pre call, pre ++ [call] <+: history →
      RestoresModel (Unchecked.explore source c₀ pre) call) :
    (Unchecked.isInDeadlock (Unchecked.explore source c₀ history).currentProgramModel =
        .ok true ↔
      (Unchecked.explore source c₀ history).currentProgramModel.Deadlocked
        c₀.getStateSequence.toState) ↔
    (Unchecked.explore source c₀ history).currentProgramModel.VerdictExact
      c₀.getStateSequence.toState := by
  obtain ⟨⟨r₀, runners, hdeep⟩, hfollows⟩ := followsTrace_explore h hhistory
  have hnow := hfollows _ _ hdeep.stateAtDepth_length
  rw [List.take_length] at hnow
  exact Program.verdict_iff hdeep.keyed hnow

/-- The main thread at its end is taken for a deadlock. -/
theorem not_verdict_exact :
    ¬ ∀ (source : ProcessSource) (c₀ : Coordinator) (history : List CoordinatorCall), c₀.Initial →
      (∀ pre call, pre ++ [call] <+: history →
        RestoresModel (Unchecked.explore source c₀ pre) call) →
      (Unchecked.isInDeadlock (Unchecked.explore source c₀ history).currentProgramModel =
          .ok true ↔
        (Unchecked.explore source c₀ history).currentProgramModel.Deadlocked
          c₀.getStateSequence.toState) := by
  intro h
  have hhistory : ∀ pre call, pre ++ [call] <+: [] ++ [CoordinatorCall.executeRunner 0] →
      RestoresModel (Unchecked.explore exiting .atMain pre) call :=
    forall_prefix_concat.mpr ⟨fun pre call hpre => by simp at hpre, trivial⟩
  obtain ⟨-, q, -, -, t, ht, hop⟩ := (h exiting .atMain [.executeRunner 0]
    Coordinator.initial_atMain hhistory).mp (by rfl)
  have hpending : (Coordinator.atMain.currentProgramModel.nextSteps.insert 0
      ⟨0, .threadExit⟩).lookup q = some t := ht
  rw [lookup_insert] at hpending
  split_ifs at hpending with hmain
  · obtain rfl := Option.some.inj hpending
    cases hop
  · exact hmain (Coordinator.pending_atMain hpending).1

/-- The main thread creates a thread and joins it. This one waits for a semaphore which nobody
posts to. -/
private def waitingForever : ProcessSource
  | [], _ => .ok (.threadCreate 1000)
  | [_], _ => .ok (.threadJoin 1)
  | [_, _], _ => .ok (.semInit 7 0)
  | _, _ => .ok (.semWait 7)

/-- Both threads wait, after what the second one has begun with was taken back once. -/
private def untilBothWait : List CoordinatorCall :=
  [.executeRunner 0, .executeRunner 0, .executeRunner 1] ++ [.returnToDepth 2] ++
    [.executeRunner 1] ++ [.executeRunner 1]

/-- The verdict on two threads which wait for each other's end and for a semaphore is right: it is
a deadlock. -/
theorem deadlocked_untilBothWait :
    (Unchecked.explore waitingForever .atMain untilBothWait).currentProgramModel.Deadlocked
      Coordinator.atMain.getStateSequence.toState := by
  have hhistory : ∀ pre call, pre ++ [call] <+: untilBothWait →
      RestoresModel (Unchecked.explore waitingForever .atMain pre) call := by
    refine forall_prefix_concat.mpr ⟨forall_prefix_concat.mpr ⟨forall_prefix_concat.mpr
      ⟨fun pre call hpre => ?_, rfl⟩, trivial⟩, trivial⟩
    have hmem := hpre.subset (List.mem_append_right pre (List.mem_singleton_self call))
    simp only [List.mem_cons, List.not_mem_nil, or_false] at hmem
    rcases hmem with rfl | rfl | rfl <;> trivial
  have hverdict : Unchecked.isInDeadlock
      (Unchecked.explore waitingForever .atMain untilBothWait).currentProgramModel = .ok true := by
    rfl
  have ⟨⟨_, _, hdeep⟩, _⟩ := followsTrace_explore Coordinator.initial_atMain hhistory
  obtain ⟨hdisabled, -⟩ := (isInDeadlockBy_eq_ok_true
    (fun _ _ => Unchecked.getStateOfRunner_of_isEnabledIn) hdeep.keyed).mp hverdict
  have hexaminable := (Program.allDisabledBy_iff_examinable.mp hdisabled).1
  have hmid : (Unchecked.explore waitingForever .atMain
      untilBothWait).currentProgramModel.MidRun 1 := ⟨⟨1, rfl, rfl⟩, _, rfl, rfl⟩
  exact ((verdict_exact_iff Coordinator.initial_atMain hhistory).mpr
    (.inr (.inl ⟨hexaminable, .inr ⟨1, hmid⟩⟩))).mp hverdict

end McMini
