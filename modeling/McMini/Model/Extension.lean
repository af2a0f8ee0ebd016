import McMini.Model.Transition

/-!
# States which know more

A state *extends* another when it has the same states for the objects of the other, and the same
objects for its runners; it may know further objects and runners. What can be found out about a
transition in a state, whether it is enabled or not, stays true in every state which extends it
(`ExtendedBy.isEnabledIn`): only questions which could not be answered may get an answer.
-/

namespace McMini

/-- The state `u` knows what `s` knows, and perhaps more. -/
structure State.ExtendedBy (s u : State) : Prop where
  objects : ∀ i o, s.objectState i = some o → u.objectState i = some o
  runners : ∀ p i, s.objidForRunner p = some i → u.objidForRunner p = some i

namespace State.ExtendedBy

variable {s u v : State} {i : ObjId} {p : RunnerId}

theorem refl (s : State) : s.ExtendedBy s := ⟨fun _ _ h => h, fun _ _ h => h⟩

theorem trans (h : s.ExtendedBy u) (h' : u.ExtendedBy v) : s.ExtendedBy v :=
  ⟨fun i o ho => h'.objects i o (h.objects i o ho), fun p i hi => h'.runners p i (h.runners p i hi)⟩

/-- States which know each other's objects and runners are the same. -/
theorem antisymm (h : s.ExtendedBy u) (h' : u.ExtendedBy s) : s = u := by
  refine State.ext (funext fun i => ?_) (funext fun p => ?_)
  · cases hi : s.objectState i with
    | some o => exact (h.objects i o hi).symm
    | none =>
      cases hi' : u.objectState i with
      | some o => exact absurd (hi.symm.trans (h'.objects i o hi')) (Option.some_ne_none o).symm
      | none => rfl
  · cases hp : s.objidForRunner p with
    | some i => exact (h.runners p i hp).symm
    | none =>
      cases hp' : u.objidForRunner p with
      | some i => exact absurd (hp.symm.trans (h'.runners p i hp')) (Option.some_ne_none i).symm
      | none => rfl

theorem mutexAt (h : s.ExtendedBy u) {m : Mutex} (hm : s.mutexAt i = .ok m) :
    u.mutexAt i = .ok m :=
  mutexAt_eq_ok.mpr (h.objects i _ (mutexAt_eq_ok.mp hm))

theorem semaphoreAt (h : s.ExtendedBy u) {sem : Semaphore} (hsem : s.semaphoreAt i = .ok sem) :
    u.semaphoreAt i = .ok sem :=
  semaphoreAt_eq_ok.mpr (h.objects i _ (semaphoreAt_eq_ok.mp hsem))

theorem conditionVariableAt (h : s.ExtendedBy u) {cv : ConditionVariable}
    (hcv : s.conditionVariableAt i = .ok cv) : u.conditionVariableAt i = .ok cv :=
  conditionVariableAt_eq_ok.mpr (h.objects i _ (conditionVariableAt_eq_ok.mp hcv))

theorem hasThread (h : s.ExtendedBy u) {t : Thread} (ht : s.HasThread p t) : u.HasThread p t := by
  obtain ⟨i, hi, ho⟩ := ht
  exact ⟨i, h.runners p i hi, h.objects i _ ho⟩

theorem getStateOfRunner (h : s.ExtendedBy u) {t : Thread} (ht : s.getStateOfRunner p = .ok t) :
    u.getStateOfRunner p = .ok t :=
  getStateOfRunner_eq_ok.mpr (h.hasThread (getStateOfRunner_eq_ok.mp ht))

end State.ExtendedBy

/-! ### Differences from an extended base -/

namespace DiffState

/-- The same difference, from a base which knows more. -/
structure Over (d d' : DiffState) : Prop where
  base : d.baseState.ExtendedBy d'.baseState
  changes : d'.newObjectStates = d.newObjectStates

variable {d d' : DiffState} {i : ObjId} {o : VisibleObjectState} {p : RunnerId}

theorem over_ofState {s u : State} (h : s.ExtendedBy u) : (ofState s).Over (ofState u) := ⟨h, rfl⟩

theorem Over.toState (h : d.Over d') : d.toState.ExtendedBy d'.toState := by
  refine ⟨fun i o ho => ?_, h.base.runners⟩
  have hsplit : (d.newObjectStates.lookup i).or (d.baseState.objectState i) = some o := ho
  show (d'.newObjectStates.lookup i).or (d'.baseState.objectState i) = some o
  rw [h.changes]
  rcases Option.or_eq_some_iff.mp hsplit with hnew | ⟨hnone, hold⟩
  · rw [hnew]
    rfl
  · rw [hnone, Option.none_or]
    exact h.base.objects i o hold

theorem Over.insertState (h : d.Over d') (i : ObjId) (o : VisibleObjectState) :
    (d.insertState i o).Over (d'.insertState i o) := by
  refine ⟨h.base, ?_⟩
  show d'.newObjectStates.insert i o = d.newObjectStates.insert i o
  rw [h.changes]

/-- Where the first computation has a result, the second has the same, over its own base. -/
def Transfers (x x' : Except Failure (Status × DiffState)) : Prop :=
  ∀ st e, x = .ok (st, e) → ∃ e', x' = .ok (st, e') ∧ e.Over e'

theorem transfers_pure (h : d.Over d') (st : Status) : Transfers (pure (st, d)) (pure (st, d')) := by
  intro st' e heq
  obtain ⟨rfl, rfl⟩ := Prod.mk.inj (Except.ok.inj heq)
  exact ⟨d', rfl, h⟩

theorem transfers_throw (e : Failure) (x' : Except Failure (Status × DiffState)) :
    Transfers (throw e) x' := fun _ _ heq => by cases heq

theorem transfers_bind {α : Type} {x x' : Except Failure α}
    {f f' : α → Except Failure (Status × DiffState)} (hx : ∀ a, x = .ok a → x' = .ok a)
    (hf : ∀ a, Transfers (f a) (f' a)) : Transfers (x >>= f) (x' >>= f') := by
  intro st e heq
  obtain ⟨a, ha, hrest⟩ := bind_eq_ok.mp heq
  obtain ⟨e', he', hover⟩ := hf a st e hrest
  exact ⟨e', bind_eq_ok.mpr ⟨a, hx a ha, he'⟩, hover⟩

theorem transfers_ite {c : Prop} [Decidable c] {x x' y y' : Except Failure (Status × DiffState)}
    (hx : Transfers x x') (hy : Transfers y y') :
    Transfers (if c then x else y) (if c then x' else y') := by
  by_cases hc : c
  · rw [if_pos hc, if_pos hc]
    exact hx
  · rw [if_neg hc, if_neg hc]
    exact hy

variable {f f' : DiffState → Except Failure (Status × DiffState)}

theorem transfers_replaceStateForObj (h : d.Over d')
    (hf : ∀ e e', e.Over e' → Transfers (f e) (f' e')) :
    Transfers (d.replaceStateForObj i o >>= f) (d'.replaceStateForObj i o >>= f') := by
  intro st e heq
  obtain ⟨d₁, hd₁, hrest⟩ := bind_eq_ok.mp heq
  obtain ⟨⟨old, hold, htype⟩, rfl⟩ := replaceStateForObj_eq_ok.mp hd₁
  obtain ⟨e', he', hover⟩ := hf _ _ (h.insertState i o) st e hrest
  have hd₁' : d'.replaceStateForObj i o = .ok (d'.insertState i o) :=
    replaceStateForObj_eq_ok.mpr ⟨⟨old, h.toState.objects i old hold, htype⟩, rfl⟩
  exact ⟨e', bind_eq_ok.mpr ⟨_, hd₁', he'⟩, hover⟩

theorem transfers_replaceStateForRunner (h : d.Over d') {t : Thread}
    (hf : ∀ e e', e.Over e' → Transfers (f e) (f' e')) :
    Transfers (d.replaceStateForRunner p t >>= f) (d'.replaceStateForRunner p t >>= f') := by
  unfold replaceStateForRunner
  cases hi : d.toState.objidForRunner p with
  | none => exact transfers_throw _ _
  | some i =>
    rw [h.toState.runners p i hi]
    exact transfers_replaceStateForObj h hf

end DiffState

open DiffState in
/-- What a transition does over a base it does over every base which knows more. -/
theorem Transition.transfers_modify (t : Transition) {d d' : DiffState} (h : d.Over d') :
    Transfers (t.modify d) (t.modify d') := by
  have hstate := h.toState
  have hdone : ∀ e e', e.Over e' → Transfers (pure (Status.exists', e)) (pure (.exists', e')) :=
    fun _ _ hover => transfers_pure hover _
  have hkept : ∀ st, Transfers (pure (st, d)) (pure (st, d')) := transfers_pure h
  obtain ⟨p, op⟩ := t
  cases op with
  | mutexInit m =>
    exact transfers_bind (fun _ => hstate.mutexAt) fun _ => transfers_replaceStateForObj h hdone
  | mutexLock m | mutexUnlock m =>
    exact transfers_bind (fun _ => hstate.mutexAt) fun _ =>
      transfers_ite (hkept _) (transfers_replaceStateForObj h hdone)
  | conditionVariableInit c => exact transfers_replaceStateForObj h hdone
  | conditionVariableEnqueueThread c m =>
    refine transfers_bind (fun _ => hstate.conditionVariableAt) fun _ =>
      transfers_bind (fun _ => hstate.mutexAt) fun _ =>
        transfers_ite (hkept _) (transfers_ite (hkept _) (transfers_replaceStateForObj h ?_))
    exact fun e e' hover => transfers_replaceStateForObj hover hdone
  | conditionVariableWait c m =>
    refine transfers_bind (fun _ => hstate.conditionVariableAt) fun cv =>
      transfers_bind (fun _ => hstate.mutexAt) fun mu =>
        transfers_ite (hkept _) (transfers_ite (hkept _) (transfers_ite (hkept _)
          (transfers_replaceStateForObj h fun e e' hover => ?_)))
    cases cv.wait p mu.location with
    | none => exact transfers_throw _ _
    | some newCv => exact transfers_replaceStateForObj hover hdone
  | conditionVariableSignal c | conditionVariableBroadcast c | conditionVariableDestroy c =>
    exact transfers_bind (fun _ => hstate.conditionVariableAt) fun _ => transfers_ite (hkept _)
      (transfers_ite (hkept _) (transfers_ite (hkept _) (transfers_replaceStateForObj h hdone)))
  | semInit i n => exact transfers_replaceStateForObj h hdone
  | semPost i =>
    exact transfers_bind (fun _ => hstate.semaphoreAt) fun _ => transfers_replaceStateForObj h hdone
  | semWait i =>
    exact transfers_bind (fun _ => hstate.semaphoreAt) fun _ =>
      transfers_ite (hkept _) (transfers_replaceStateForObj h hdone)
  | threadCreate target => exact transfers_replaceStateForRunner h hdone
  | threadStart | threadJoin target =>
    exact transfers_bind (fun _ => hstate.getStateOfRunner) fun _ => hkept _
  | threadExit =>
    exact transfers_bind (fun _ => hstate.getStateOfRunner) fun _ =>
      transfers_ite (hkept _) (transfers_replaceStateForRunner h hdone)
  | processExit n => exact transfers_replaceStateForRunner h hdone
  | processAbort => exact hkept _

/-- What has to be found out before a transition is known to be enabled or not. -/
theorem isEnabledIn_eq_ok {t : Transition} {s : State} {b : Bool} :
    t.isEnabledIn s = .ok b ↔ ∃ th, s.getStateOfRunner t.executor = .ok th ∧
      (th.isActive = false ∧ b = false ∨
        th.isActive = true ∧ ∃ st d, t.modify (DiffState.ofState s) = .ok (st, d) ∧
          b = decide (st = .exists')) := by
  unfold Transition.isEnabledIn Transition.applyTo Transition.applyBy
  cases s.getStateOfRunner t.executor with
  | error e => simp [bind, Except.bind]
  | ok th =>
    cases hactive : th.isActive with
    | false => cases b <;> simp [hactive, bind, Except.bind, pure, Except.pure]
    | true =>
      rcases t.modify (DiffState.ofState s) with e | ⟨_ | _ | _, d⟩ <;> cases b <;>
        simp [hactive, bind, Except.bind, pure, Except.pure]

namespace State.ExtendedBy

variable {s u : State} {t : Transition}

/-- **What is known about a transition stays true.** -/
theorem isEnabledIn (h : s.ExtendedBy u) {b : Bool} (hb : t.isEnabledIn s = .ok b) :
    t.isEnabledIn u = .ok b := by
  rw [isEnabledIn_eq_ok] at hb ⊢
  obtain ⟨th, hth, hcase⟩ := hb
  refine ⟨th, h.getStateOfRunner hth, hcase.imp_right fun ⟨hactive, st, d, hmodify, hb⟩ => ?_⟩
  obtain ⟨e, he, -⟩ := t.transfers_modify (DiffState.over_ofState h) st d hmodify
  exact ⟨hactive, st, e, he, hb⟩

theorem enabled (h : s.ExtendedBy u) (ht : Enabled t s) : Enabled t u :=
  isEnabledIn_eq_ok_true.mp (h.isEnabledIn (isEnabledIn_eq_ok_true.mpr ht))

end State.ExtendedBy

end McMini
