import McMini.Dpor.ClassicDpor
import McMini.Properties.SemaphoreValues

/-!
# The operations which threads report

When `execute_runner` returns, the coordinator executes in the model what the runner has reported
before, and keeps what it reports now as the next operation. So whatever the threads of a branch and
McMini do, what a thread has reported last is pending in the model (`reported_of_run`).

This is how McMini learns that something ends. A runner which has executed the exit that it had
reported is disabled in the state which this leads to (`Reported.not_step_of_retired`). And a runner
which reports that the program is about to end abnormally makes the exploration stop, if it looks
(`Reported.checkNextOperation_of_endsAbnormally`).
-/

namespace McMini.TargetBranch

open Coordinator Foundation
open TargetThread (exits endsAbnormally)

variable {a : Action} {b b' : State} {p q : RunnerId} {contents : MailboxContents}
  {c co co' : Coordinator} {t : Transition} {st : TargetThread.State}

/-! ### What the model makes of an end -/

/-- A runner whose exit has been executed is not enabled in the state which that leads to. -/
theorem not_step_of_exits {m m' m'' : McMini.State} {op : Operation}
    (hexits : exits contents = true) (hcallback : (callback p contents).run co = (.ok t, co'))
    (hstep : Step m t m') : ¬ Step m' ⟨p, op⟩ m'' := by
  intro hnext
  have hself : m.Active p → (m.setThread p ⟨.exited⟩).HasThread p ⟨.exited⟩ := fun hactive =>
    ((McMini.State.HasThread.setThread hactive hactive ⟨.exited⟩).resolve_right fun h => h.1 rfl).2
  have hexited : m'.HasThread p ⟨.exited⟩ := by
    cases contents with
    | threadExit =>
      cases hcallback
      cases hstep with
      | threadExit hactive hmain => exact hself hactive
    | processExit exitCode =>
      cases hcallback
      cases hstep with
      | processExit hactive => exact hself hactive
    | _ => cases hexits
  cases hexited.unique hnext.active

/-- The search does not go on when the next operation of the runner ends the program. -/
theorem checkNextOperation_eq_error (hends : endsAbnormally contents = true)
    (hcallback : (callback p contents).run co = (.ok t, co'))
    (hpending : c.pendingTransitionFor p = .ok t) :
    ∃ e, Search.checkNextOperation p c = .error e := by
  rw [Search.checkNextOperation, hpending]
  cases contents with
  | processAbort =>
    cases hcallback
    exact ⟨_, rfl⟩
  | processExit exitCode =>
    cases hcallback
    exact ⟨_, if_pos (of_decide_eq_true hends)⟩
  | _ => cases hends

/-! ### What is pending -/

/-- What the runner has reported last is pending in the model, as a callback has translated it. The
start of a thread has been reported by its creator. -/
def Announces (c : Coordinator) (p : RunnerId) (pending : Option MailboxContents) : Prop :=
  ∀ contents, pending = some contents → ∃ co co' t, (callback p contents).run co = (.ok t, co') ∧
    c.currentProgramModel.nextSteps.lookup p = some t

/-- The threads are those of a branch, and have announced what the model will execute. -/
structure Reported (b : State) : Prop where
  mapped : Mapped b.coordinator
  onDuty : ∀ p, ∃ d, OnDuty (b.threads p) d
  mode : ∀ p, (b.threads p).mode.isInRestartMode = false
  announces : ∀ p, Announces b.coordinator p (b.threads p).pending

/-- A thread does something by which the model does not change. -/
theorem Reported.update (h : Reported b) (hduty : ∃ d, OnDuty st d)
    (hmode : st.mode = (b.threads p).mode) (hpending : st.pending = (b.threads p).pending)
    {semaphores : Semaphores} {scheduled : Option RunnerId} :
    Reported ⟨b.atExit, b.coordinator, Function.update b.threads p st, semaphores, scheduled⟩ := by
  refine ⟨h.mapped, ?_, ?_, ?_⟩
  · refine (Function.forall_update_iff b.threads fun _ st => ∃ d, OnDuty st d).mpr ⟨hduty, ?_⟩
    exact fun q _ => h.onDuty q
  · refine (Function.forall_update_iff b.threads
      fun _ st => st.mode.isInRestartMode = false).mpr ⟨?_, fun q _ => h.mode q⟩
    rw [hmode]
    exact h.mode p
  · refine (Function.forall_update_iff b.threads
      fun q st => Announces b.coordinator q st.pending).mpr ⟨?_, fun q _ => h.announces q⟩
    rw [hpending]
    exact h.announces p

/-- In a branch no thread checks in any more. -/
theorem Reported.advance (h : Reported b) (hstep : (b.threads p).advance = some st) :
    (∃ d, OnDuty st d) ∧ st.mode = (b.threads p).mode ∧ st.pending = (b.threads p).pending := by
  obtain ⟨d, hduty⟩ := h.onDuty p
  obtain ⟨i, code, hadv⟩ := TargetThread.exists_advances hstep
  obtain ⟨j, d', hhead, hd, hduty'⟩ := hduty.advance hstep
  obtain rfl : i = j := by
    rw [hadv.code_eq] at hhead
    exact Option.some.inj hhead
  have hnotify : i ≠ .notifyTemplateThread := by
    rintro rfl
    cases d with
    | stuck => exact hduty.fits
    | restarting => exact absurd (hduty.fits.1.symm.trans (h.mode p)) (by decide)
    | waiting => cases hd
    | owing call => cases call <;> cases hd
  exact ⟨⟨d', hduty'⟩, hadv.mode, (hadv.pending hnotify).1⟩

/-- **A round of McMini.** What was announced has been executed, and what is reported now is
announced. -/
theorem Reported.receive (h : Reported b)
    (hlength : b.coordinator.getStateSequence.visibleObjects.length ≤ objidInvalid)
    (hstep : step ⟨p, .receive⟩ b = some b') :
    Reported b' ∧ (b'.threads p).retired = (b.threads p).pending.any exits ∧
      ∀ contents, (b.threads p).pending = some contents → ∃ co co' t m,
        (callback p contents).run co = (.ok t, co') ∧
          Step m t b'.coordinator.getStateSequence.toState := by
  obtain ⟨st, hthread, hstep⟩ := Option.bind_eq_some_iff.mp hstep
  obtain ⟨contents, hcontents, hstep⟩ := Option.bind_eq_some_iff.mp hstep
  obtain ⟨c', hexecute, hstep⟩ := Option.bind_eq_some_iff.mp hstep
  obtain rfl := Option.some.inj hstep
  obtain ⟨d, hduty⟩ := h.onDuty p
  obtain ⟨-, hduty', -, -, hpending⟩ := hduty.receive hthread
  obtain ⟨-, hst⟩ := Option.ite_none_right_eq_some.mp hthread
  obtain ⟨c₁, next, t, -, -, hadds, hcallback, hnext, hmodel, hmapped, -, hpendings⟩ :=
    h.mapped.executeStep hlength hexecute
  have hprocess := h.mapped.afterProcess p
  refine ⟨⟨hmapped, ?_, ?_, ?_⟩, ?_, fun contents₀ hcontents₀ => ?_⟩
  · exact (Function.forall_update_iff b.threads fun _ st => ∃ d, OnDuty st d).mpr
      ⟨⟨_, hduty'⟩, fun q _ => h.onDuty q⟩
  · refine (Function.forall_update_iff b.threads
      fun _ st => st.mode.isInRestartMode = false).mpr ⟨?_, fun q _ => h.mode q⟩
    rw [← Option.some.inj hst]
    exact h.mode p
  · refine (Function.forall_update_iff b.threads
      fun q st => Announces c' q st.pending).mpr ⟨?_, fun q hq => ?_⟩
    · intro contents' hcontents'
      -- what the runner reports now has just been translated, and is pending
      rw [hpending, hcontents] at hcontents'
      obtain rfl := Option.some.inj hcontents'
      rw [hpendings, lookup_insert, if_pos rfl]
      exact ⟨_, _, t, hcallback, rfl⟩
    · intro contents' hcontents'
      obtain ⟨co, co', u, hrun, hu⟩ := h.announces q contents' hcontents'
      rw [hpendings, lookup_insert, if_neg (Ne.symm hq)]
      exact ⟨co, co', u, hrun, pending_adds hprocess hadds hu⟩
  · dsimp only
    rw [Function.update_self, ← Option.some.inj hst]
  -- what it reported in the last round was pending, and is what the model has executed
  · obtain ⟨co, co', u, hrun, hu⟩ := h.announces p contents₀ hcontents₀
    obtain rfl := Option.some.inj (hnext.symm.trans (pending_adds hprocess hadds hu))
    exact ⟨co, co', _, _, hrun, hmodel⟩

theorem Reported.step (h : Reported b)
    (hlength : b.coordinator.getStateSequence.visibleObjects.length ≤ objidInvalid)
    (hstep : step a b = some b') : Reported b' := by
  obtain ⟨p, act⟩ := a
  cases act with
  | receive => exact (h.receive hlength hstep).1
  | changeMode => cases hstep
  | executeRunner =>
    obtain ⟨-, hstep⟩ := Option.ite_none_right_eq_some.mp hstep
    obtain ⟨st, hthread, rfl⟩ := Option.map_eq_some_iff.mp hstep
    obtain ⟨d, hduty⟩ := h.onDuty p
    obtain ⟨hduty', -, hpending, -⟩ := hduty.executeRunner hthread
    obtain ⟨-, hst⟩ := Option.ite_none_right_eq_some.mp hthread
    exact h.update ⟨_, hduty'⟩ (Option.some.inj hst ▸ rfl) hpending
  | advance =>
    obtain ⟨st, hthread, rfl⟩ := Option.map_eq_some_iff.mp hstep
    obtain ⟨hduty, hmode, hpending⟩ := h.advance hthread
    exact h.update hduty hmode hpending
  | call | createFails | hangs =>
    obtain ⟨st, hthread, rfl⟩ := Option.map_eq_some_iff.mp hstep
    obtain ⟨d, hduty⟩ := h.onDuty p
    obtain ⟨hduty', -, hmode, hpending, -⟩ := hduty.goOn hthread (by simp)
    exact h.update ⟨d, hduty'⟩ hmode hpending

theorem isInRestartMode_of_begins {kind : TargetThread.Thread} (h : Begins kind st) :
    st.mode.isInRestartMode = false := by
  cases h with
  | start hmode => exact hmode
  | checkedIn => rfl

/-- **Reports.** In every state of a branch, what a thread has reported last is pending in the
model. -/
theorem reported_of_run {acts : List Action} (hmapped : Mapped b.coordinator)
    (hbegins : ∀ p, Begins (b.kind p) (b.threads p))
    (hannounces : ∀ p, Announces b.coordinator p (b.threads p).pending)
    (hrun : runFrom step b acts = some b')
    (hlength : b'.coordinator.getStateSequence.visibleObjects.length ≤ objidInvalid) :
    Reported b' := by
  have hstart : Reported b := by
    exact ⟨hmapped, fun p => ⟨_, (onDuty_of_begins (hbegins p)).1⟩,
      fun p => isInRestartMode_of_begins (hbegins p), hannounces⟩
  clear hmapped hbegins hannounces
  induction acts generalizing b with
  | nil =>
    obtain rfl := Option.some.inj hrun
    exact hstart
  | cons a acts ih =>
    have hbefore := (objects_run hstart.mapped.settled hrun).trans hlength
    obtain ⟨b₁, hstep, hrest⟩ := runFrom_cons_eq_some.mp hrun
    exact ih hrest (hstart.step hbefore hstep)

/-! ### What McMini does about an end -/

/-- A runner which McMini retires is disabled in the model. -/
theorem Reported.not_step_of_retired (h : Reported b)
    (hlength : b.coordinator.getStateSequence.visibleObjects.length ≤ objidInvalid)
    (hstep : TargetBranch.step ⟨p, .receive⟩ b = some b')
    (hretired : (b'.threads p).retired = true) {op : Operation} {m : McMini.State} :
    ¬ Step b'.coordinator.getStateSequence.toState ⟨p, op⟩ m := by
  obtain ⟨-, heq, hexecuted⟩ := h.receive hlength hstep
  rw [heq, Option.any_eq_true] at hretired
  obtain ⟨contents, hcontents, hexits⟩ := hretired
  obtain ⟨co, co', t, m₀, hcallback, hmodel⟩ := hexecuted contents hcontents
  exact not_step_of_exits hexits hcallback hmodel

/-- The exploration stops when the runner which it has executed has reported that the program is
about to end abnormally. -/
theorem Reported.checkNextOperation_of_endsAbnormally (h : Reported b)
    (hends : (b.threads p).pending.any endsAbnormally = true) :
    ∃ e, Search.checkNextOperation p b.coordinator = .error e := by
  obtain ⟨contents, hcontents, hends⟩ := (Option.any_eq_true _ _).mp hends
  obtain ⟨co, co', t, hcallback, hlookup⟩ := h.announces p contents hcontents
  refine checkNextOperation_eq_error hends hcallback ?_
  rw [pendingTransitionFor, hlookup]

end McMini.TargetBranch
