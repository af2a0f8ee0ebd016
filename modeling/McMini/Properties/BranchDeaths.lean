import McMini.RealWorld.ExecuteRunner

/-!
# Branches which die

A branch can die while McMini waits for the report of one of its runners. The call should then
end with the exception which tells the signal or the exit code (`Diagnosed`).

It does if the branch is McMini's own child. A branch which the template has forked is reaped by
the template, which forwards nothing if the signal is not a bad one, and otherwise a bare
`SIGCHLD`. In the first case McMini is not woken, in the second its `waitpid` finds no child and
the call ends with an `execution_error`. Only for a branch which exits with code `0` is this as
it should be (`diagnosed_iff`).
-/

namespace McMini.ExecuteRunner

open Foundation

variable {s s' : State} {a : Action} {id : RunnerId} {status : WaitStatus} {parent : Parent}
  {actions : List Action}

/-- McMini waits for the report of the runner. -/
def awaiting (parent : Parent) (id : RunnerId) : State where
  caller := .waiting id
  currentSem := some id
  childSideSem := {id}
  parent := parent

/-- The steps of the parties when the branch dies without another report. -/
def Action.OfDeath (status : WaitStatus) : Action → Prop
  | .die status' => status' = status
  | .setSem _ | .wakeThread | .report _ | .otherDies => False
  | _ => True

/-- The call waits on, and nobody is left to wake it. -/
structure State.Blocked (s : State) (id : RunnerId) : Prop where
  caller : s.caller = .waiting id
  unit : id ∉ s.modelSideSem
  branch : s.branch ≠ .running
  handler : s.pending = false ∧ s.handling = false
  templateHandler : s.templatePending = false ∧ s.templateHandler = .idle

/-- The exception tells how the branch has ended. Nothing is asked for exit code `0`. -/
def Named (id : RunnerId) : WaitStatus → Failure → Prop
  | .exited exitCode, e => exitCode = 0 ∨ ∃ what, e = .nonzeroExitCodeError exitCode id what
  | .signaled signo, e => ∃ what, e = .terminationError signo id what

/-- What is asked of a run. -/
structure Diagnosed (id : RunnerId) (status : WaitStatus) (actions : List Action) (s : State) :
    Prop where
  notBlocked : ¬ s.Blocked id
  named : ∀ e, s.caller = .threw e → Named id status e
  /-- When no step is left, the call has ended. -/
  ends : (∀ a, a.OfDeath status → step a s = none) → ∃ e, s.caller = .threw e
  bounded : actions.length ≤ 9

/-! ### Runs end -/

def TemplateHandler.potential : TemplateHandler → ℕ
  | .forwarding _ => 7
  | .releasing => 1
  | .idle => 0

def Caller.potential : Caller → ℕ
  | .woken _ => 2
  | .confirming _ => 1
  | _ => 0

/-- A bound for the number of steps which are left. -/
def State.potential (s : State) : ℕ :=
  (if s.branch = .running then 9 else 0) + 8 * s.templatePending.toNat +
    s.templateHandler.potential + 5 * s.pending.toNat + 4 * s.handling.toNat +
    3 * s.modelSideSem.card + s.caller.potential

theorem potential_lt (hstep : step a s = some s') (ha : a.OfDeath status) :
    s'.potential < s.potential := by
  unfold State.potential
  cases a with
  | setSem _ | wakeThread | report _ | otherDies => exact ha.elim
  | semWait =>
    cases hcaller : s.caller with
    | waiting id =>
      simp only [step, hcaller, Option.ite_none_right_eq_some, Option.some.injEq] at hstep
      obtain ⟨hunit, rfl⟩ := hstep
      have hcard := Multiset.card_erase_add_one hunit
      simp only [Caller.potential]
      omega
    | _ => simp [step, hcaller] at hstep
  | tryConsumeSignal =>
    cases hcaller : s.caller with
    | woken id =>
      simp only [step, hcaller] at hstep
      split_ifs at hstep
      · obtain rfl := Option.some.inj hstep
        simp [Caller.potential]
      · obtain rfl := Option.some.inj hstep
        simp [Caller.potential]
    | _ => simp [step, hcaller] at hstep
  | waitpid =>
    cases hcaller : s.caller with
    | confirming id =>
      simp only [step, hcaller, Option.some.injEq] at hstep
      subst hstep
      unfold State.waitpid
      split
      · simp [Caller.potential]
      · rename_i hbranch
        simp [Caller.potential, hbranch]
      · simp [Caller.potential]
    | _ => simp [step, hcaller] at hstep
  | setSignal =>
    simp only [step, Option.ite_none_right_eq_some, Option.some.injEq] at hstep
    obtain ⟨⟨hpending, hhandling⟩, rfl⟩ := hstep
    simp [hpending, hhandling]
  | semPost =>
    simp only [step, Option.ite_none_right_eq_some, Option.some.injEq] at hstep
    obtain ⟨hhandling, rfl⟩ := hstep
    have hcard : (s.currentSem.toList + s.modelSideSem : Multiset RunnerId).card ≤
        1 + s.modelSideSem.card := by
      rw [Multiset.card_add]
      cases s.currentSem <;> simp
    have hone : s.handling.toNat = 1 := by simp [hhandling]
    simp only [Bool.toNat_false]
    omega
  | die status' =>
    simp only [step] at hstep
    split_ifs at hstep with hbranch
    cases hparent : s.parent with
    | template =>
      rw [hparent] at hstep
      obtain rfl := Option.some.inj hstep
      have hle := Bool.toNat_le s.templatePending
      simp only [hbranch, Bool.toNat_true, if_true, reduceCtorEq, if_false]
      omega
    | mcmini =>
      rw [hparent] at hstep
      obtain rfl := Option.some.inj hstep
      have hle := Bool.toNat_le s.pending
      simp only [hbranch, Bool.toNat_true, if_true, reduceCtorEq, if_false]
      omega
  | templateWaitpid =>
    simp only [step] at hstep
    split_ifs at hstep with hentered
    obtain ⟨hpending, hidle⟩ := hentered
    split at hstep
    · cases hstep
    · rename_i hbranch
      obtain rfl := Option.some.inj hstep
      simp [hpending, hidle, hbranch, TemplateHandler.potential]
    · obtain rfl := Option.some.inj hstep
      simp [hpending]
  | templateKill =>
    cases hhandler : s.templateHandler with
    | forwarding signalMcmini =>
      simp only [step, hhandler, Option.some.injEq] at hstep
      subst hstep
      have hle := Bool.toNat_le (s.pending || signalMcmini)
      simp only [TemplateHandler.potential]
      omega
    | _ => simp [step, hhandler] at hstep
  | templateSemPost =>
    simp only [step, Option.ite_none_right_eq_some, Option.some.injEq] at hstep
    obtain ⟨hreleasing, rfl⟩ := hstep
    simp [hreleasing, TemplateHandler.potential]

theorem length_le_potential (hrun : runFrom step s actions = some s')
    (hdeath : ∀ a ∈ actions, a.OfDeath status) : actions.length + s'.potential ≤ s.potential := by
  induction actions generalizing s with
  | nil =>
    obtain rfl := Option.some.inj hrun
    simp
  | cons a actions ih =>
    obtain ⟨s₁, hstep, hrun⟩ := runFrom_cons_eq_some.mp hrun
    obtain ⟨ha, hrest⟩ := List.forall_mem_cons.mp hdeath
    have hlt := potential_lt hstep ha
    have hle := ih hrun hrest
    rw [List.length_cons]
    omega

/-! ### Deaths which are diagnosed -/

/-- The signal which the handler is going to send. -/
def TemplateHandler.wakeUps : TemplateHandler → ℕ
  | .forwarding signalMcmini => signalMcmini.toNat
  | _ => 0

/-- The unit which has woken the caller. -/
def Caller.wakeUps : Caller → ℕ
  | .woken _ | .confirming _ | .threw _ => 1
  | _ => 0

/-- The death of the branch is on its way to the caller: as the branch itself while it is
running, as a pending signal, as a handler which is about to post or as a unit of the
semaphore. -/
structure State.Dying (parent : Parent) (status : WaitStatus) (id : RunnerId) (s : State) :
    Prop where
  isChild : s.parent = parent
  sem : s.currentSem = some id
  units : ∀ j ∈ s.modelSideSem, j = id
  caller : s.caller = .waiting id ∨ s.caller = .woken id ∨ s.caller = .confirming id ∨
    ∃ e, s.caller = .threw e ∧ Named id status e
  branch : s.branch = .running ∨ s.branch = .zombie status ∨ s.branch = .reaped
  ofMcmini : parent = .mcmini → s.templatePending = false ∧ s.templateHandler = .idle ∧
    (s.branch = .reaped → ∃ e, s.caller = .threw e)
  ofTemplate : s.templatePending = true → s.branch = .zombie status
  wakeUps : (if s.branch = .running then 1 else 0) + s.templatePending.toNat +
    s.templateHandler.wakeUps + s.pending.toNat + s.handling.toNat + s.modelSideSem.card +
    s.caller.wakeUps = 1
  counted : s.sigchld = s.handling.toNat + s.modelSideSem.card +
    if s.caller = .woken id then 1 else 0

theorem dying_awaiting : (awaiting parent id).Dying parent status id where
  isChild := rfl
  sem := rfl
  units := by simp [awaiting]
  caller := .inl rfl
  branch := .inl rfl
  ofMcmini := fun _ => ⟨rfl, rfl, by simp [awaiting]⟩
  ofTemplate := by simp [awaiting]
  wakeUps := rfl
  counted := rfl

theorem named_diagnosis (id : RunnerId) (status : WaitStatus) :
    Named id status (diagnosis id status) := by
  cases status with
  | exited exitCode =>
    by_cases hzero : exitCode = 0
    · exact .inl hzero
    · exact .inr ⟨_, if_pos hzero⟩
  | signaled signo => exact ⟨_, rfl⟩

theorem State.Dying.step (h : s.Dying parent status id)
    (hparent : parent = .mcmini ∨ status = .exited 0) (hstep : step a s = some s')
    (ha : a.OfDeath status) : s'.Dying parent status id := by
  obtain ⟨hp, hsem, hunits, hcaller, hbranch, hmcmini, htemplate, hwakeUps, hcounted⟩ := h
  cases a with
  | setSem _ | wakeThread | report _ | otherDies => exact ha.elim
  | semWait =>
    cases hc : s.caller with
    | waiting id' =>
      -- the wake-up goes from the semaphore to the caller; its signal is still counted
      obtain rfl : id' = id := by simpa [hc] using hcaller
      simp only [ExecuteRunner.step, hc, Option.ite_none_right_eq_some,
        Option.some.injEq] at hstep
      obtain ⟨hunit, rfl⟩ := hstep
      have hcard := Multiset.card_erase_add_one hunit
      refine ⟨hp, hsem, fun j hj => hunits j (Multiset.mem_of_mem_erase hj), .inr (.inl rfl),
        hbranch, ?_, htemplate, ?_, ?_⟩
      · simpa [hc] using hmcmini
      · simp only [Caller.wakeUps, hc] at hwakeUps ⊢
        omega
      · simp only [hc, reduceCtorEq, if_false, if_true] at hcounted ⊢
        omega
    | _ => simp [ExecuteRunner.step, hc] at hstep
  | tryConsumeSignal =>
    cases hc : s.caller with
    | woken id' =>
      obtain rfl : id' = id := by simpa [hc] using hcaller
      -- the unit stands for the counted signal, so there is one to consume
      have hsigchld : 0 < s.sigchld := by
        simp only [hc, if_true] at hcounted
        omega
      simp only [ExecuteRunner.step, hc, if_pos hsigchld, Option.some.injEq] at hstep
      subst hstep
      refine ⟨hp, hsem, hunits, .inr (.inr (.inl rfl)), hbranch, ?_, htemplate, ?_, ?_⟩
      · simpa [hc] using hmcmini
      · simpa [Caller.wakeUps, hc] using hwakeUps
      · simp only [hc, reduceCtorEq, if_false, if_true] at hcounted ⊢
        omega
    | _ => simp [ExecuteRunner.step, hc] at hstep
  | waitpid =>
    cases hc : s.caller with
    | confirming id' =>
      obtain rfl : id' = id := by simpa [hc] using hcaller
      simp only [ExecuteRunner.step, hc, Option.some.injEq] at hstep
      subst hstep
      -- the caller has the only wake-up, which a running branch would have
      have hdead : s.branch ≠ .running := by
        intro hrunning
        simp only [hrunning, if_true, Caller.wakeUps, hc] at hwakeUps
        omega
      cases parent with
      | template =>
        obtain rfl : status = .exited 0 := hparent.resolve_left (by simp)
        -- the branch is no child of McMini: `waitpid` fails with `ECHILD`
        have hwaitpid : s.waitpid id' = { s with caller := .threw noSuchChild } := by
          simp only [State.waitpid, hp]
        rw [hwaitpid]
        refine ⟨hp, hsem, hunits, .inr (.inr (.inr ⟨_, rfl, .inl rfl⟩)), hbranch, by simp,
          htemplate, ?_, ?_⟩
        · simpa [Caller.wakeUps, hc] using hwakeUps
        · simpa [hc] using hcounted
      | mcmini =>
        obtain ⟨hpending, hidle, hreaped⟩ := hmcmini rfl
        -- nobody else has reaped the branch: the caller would have thrown
        have hzombie : s.branch = .zombie status := by
          refine (hbranch.resolve_left hdead).resolve_right fun hb => ?_
          simpa [hc] using hreaped hb
        have hwaitpid : s.waitpid id' =
            { s with branch := .reaped, caller := .threw (diagnosis id' status) } := by
          simp only [State.waitpid, hp, hzombie]
        rw [hwaitpid]
        refine ⟨hp, hsem, hunits, .inr (.inr (.inr ⟨_, rfl, named_diagnosis id' status⟩)),
          .inr (.inr rfl), fun _ => ⟨hpending, hidle, by simp⟩, by simp [hpending], ?_, ?_⟩
        · simpa [Caller.wakeUps, hc, hzombie] using hwakeUps
        · simpa [hc] using hcounted
    | _ => simp [ExecuteRunner.step, hc] at hstep
  | setSignal =>
    simp only [ExecuteRunner.step, Option.ite_none_right_eq_some, Option.some.injEq] at hstep
    obtain ⟨⟨hpending, hhandling⟩, rfl⟩ := hstep
    -- the handler runs once at a time, so its signal was pending and none is being handled
    have hnone : s.handling.toNat = 0 := by simpa using hhandling
    have hone : s.pending.toNat = 1 := by simpa using hpending
    refine ⟨hp, hsem, hunits, hcaller, hbranch, hmcmini, htemplate, ?_, ?_⟩
    · simp only [Bool.toNat_true, Bool.toNat_false]
      omega
    · simp only [Bool.toNat_true]
      omega
  | semPost =>
    simp only [ExecuteRunner.step, Option.ite_none_right_eq_some, Option.some.injEq, hsem] at hstep
    obtain ⟨hhandling, rfl⟩ := hstep
    have hone : s.handling.toNat = 1 := by simp [hhandling]
    -- the semaphore which the handler posts is the one of the call
    have hcard : ((some id).toList + s.modelSideSem : Multiset RunnerId).card =
        1 + s.modelSideSem.card := by simp [Nat.add_comm]
    refine ⟨hp, rfl, by simpa using hunits, hcaller, hbranch, hmcmini, htemplate, ?_, ?_⟩
    · simp only [Bool.toNat_false]
      omega
    · simp only [Bool.toNat_false]
      omega
  | die status' =>
    obtain rfl : status' = status := ha
    simp only [ExecuteRunner.step] at hstep
    split_ifs at hstep with hrunning
    cases hpar : s.parent with
    | template =>
      rw [hpar] at hstep
      obtain rfl := Option.some.inj hstep
      obtain rfl : parent = .template := hp ▸ hpar
      refine ⟨rfl, hsem, hunits, hcaller, .inr (.inl rfl), by simp, fun _ => rfl, ?_, hcounted⟩
      simp only [hrunning, reduceCtorEq, if_true, if_false, Bool.toNat_true] at hwakeUps ⊢
      omega
    | mcmini =>
      rw [hpar] at hstep
      obtain rfl := Option.some.inj hstep
      obtain rfl : parent = .mcmini := hp ▸ hpar
      obtain ⟨hpending, hidle, -⟩ := hmcmini rfl
      refine ⟨rfl, hsem, hunits, hcaller, .inr (.inl rfl), fun _ => ⟨hpending, hidle, by simp⟩,
        fun _ => rfl, ?_, hcounted⟩
      simp only [hrunning, reduceCtorEq, if_true, if_false, Bool.toNat_true] at hwakeUps ⊢
      omega
  | templateWaitpid =>
    simp only [ExecuteRunner.step] at hstep
    split_ifs at hstep with hentered
    obtain ⟨hpending, hidle⟩ := hentered
    -- the wake-up is now the signal which the handler of the template has to send
    have hzombie := htemplate hpending
    cases parent with
    | mcmini => simp [hpending] at hmcmini
    | template =>
      obtain rfl : status = .exited 0 := hparent.resolve_left (by simp)
      rw [hp, hzombie] at hstep
      obtain rfl := Option.some.inj hstep
      refine ⟨rfl, hsem, hunits, hcaller, .inr (.inr rfl), by simp, by simp, ?_, hcounted⟩
      simpa [TemplateHandler.wakeUps, WaitStatus.signalMcmini, hzombie, hpending, hidle]
        using hwakeUps
  | templateKill =>
    cases hhandler : s.templateHandler with
    | forwarding signalMcmini =>
      simp only [ExecuteRunner.step, hhandler, Option.some.injEq] at hstep
      subst hstep
      refine ⟨hp, hsem, hunits, hcaller, hbranch, ?_, htemplate, ?_, hcounted⟩
      · simpa [hhandler] using hmcmini
      · simp only [TemplateHandler.wakeUps, hhandler] at hwakeUps ⊢
        -- signals which are pending at the same time are one, but no other is
        have hor : (s.pending || signalMcmini).toNat = max s.pending.toNat signalMcmini.toNat := by
          cases s.pending <;> cases signalMcmini <;> rfl
        omega
    | _ => simp [ExecuteRunner.step, hhandler] at hstep
  | templateSemPost =>
    simp only [ExecuteRunner.step, Option.ite_none_right_eq_some, Option.some.injEq] at hstep
    obtain ⟨hreleasing, rfl⟩ := hstep
    refine ⟨hp, hsem, hunits, hcaller, hbranch, ?_, htemplate, ?_, hcounted⟩
    · intro hmc
      obtain ⟨hpending, -, hreaped⟩ := hmcmini hmc
      exact ⟨hpending, rfl, hreaped⟩
    · simpa [TemplateHandler.wakeUps, hreleasing] using hwakeUps

theorem dying_of_run (hparent : parent = .mcmini ∨ status = .exited 0)
    (hrun : runFrom step (awaiting parent id) actions = some s)
    (hdeath : ∀ a ∈ actions, a.OfDeath status) : s.Dying parent status id := by
  refine runFrom_induction (P := fun actions s => (∀ a ∈ actions, a.OfDeath status) →
    s.Dying parent status id) (fun _ => dying_awaiting) ?_ hrun hdeath
  intro actions s a s' _ ih hstep hdeath
  obtain ⟨hbefore, ha⟩ := List.forall_mem_append.mp hdeath
  exact (ih hbefore).step hparent hstep (ha a (List.mem_singleton_self a))

theorem State.Dying.notBlocked (h : s.Dying parent status id) : ¬ s.Blocked id := by
  rintro ⟨hcaller, hunit, hbranch, ⟨hpending, hhandling⟩, hpending', hidle⟩
  have hnone : s.modelSideSem = 0 := Multiset.eq_zero_of_forall_notMem fun j hj =>
    hunit (h.units j hj ▸ hj)
  have hwakeUps := h.wakeUps
  simp [hbranch, hpending, hhandling, hpending', hidle, hnone, hcaller, Caller.wakeUps,
    TemplateHandler.wakeUps] at hwakeUps

/-- When nobody can move, the call has ended. -/
theorem State.Dying.ends (h : s.Dying parent status id)
    (hstuck : ∀ a : Action, a.OfDeath status → ExecuteRunner.step a s = none) :
    ∃ e, s.caller = .threw e := by
  rcases h.caller with hcaller | hcaller | hcaller | ⟨e, hcaller, -⟩
  · refine absurd ?_ h.notBlocked
    have hunit := hstuck .semWait trivial
    have hdie := hstuck (.die status) rfl
    have hsignal := hstuck .setSignal trivial
    have hpost := hstuck .semPost trivial
    have hreap := hstuck .templateWaitpid trivial
    have hkill := hstuck .templateKill trivial
    have hrelease := hstuck .templateSemPost trivial
    have hhandling : s.handling = false := by simpa [ExecuteRunner.step] using hpost
    have hidle : s.templateHandler = .idle := by
      cases hhandler : s.templateHandler with
      | idle => rfl
      | forwarding signalMcmini => simp [ExecuteRunner.step, hhandler] at hkill
      | releasing => simp [ExecuteRunner.step, hhandler] at hrelease
    refine ⟨hcaller, ?_, ?_, ⟨?_, hhandling⟩, ?_, hidle⟩
    · simpa [ExecuteRunner.step, hcaller] using hunit
    · intro hrunning
      cases hparent : s.parent <;> simp [ExecuteRunner.step, hrunning, hparent] at hdie
    · simpa [ExecuteRunner.step, hhandling] using hsignal
    · cases hpending : s.templatePending with
      | false => rfl
      | true =>
        have hzombie := h.ofTemplate hpending
        cases hparent : s.parent with
        | template => simp [ExecuteRunner.step, hpending, hidle, hparent, hzombie] at hreap
        | mcmini =>
          obtain ⟨hnot, -⟩ := h.ofMcmini (h.isChild ▸ hparent)
          exact absurd hnot (by simp [hpending])
  · have hconsume := hstuck .tryConsumeSignal trivial
    simp only [ExecuteRunner.step, hcaller] at hconsume
    split_ifs at hconsume
  · have hwaitpid := hstuck .waitpid trivial
    simp [ExecuteRunner.step, hcaller] at hwaitpid
  · exact ⟨e, hcaller⟩

theorem State.Dying.named (h : s.Dying parent status id) {e : Failure}
    (hcaller : s.caller = .threw e) : Named id status e := by
  rcases h.caller with h' | h' | h' | ⟨e', h', hnamed⟩
  · simp [hcaller] at h'
  · simp [hcaller] at h'
  · simp [hcaller] at h'
  · obtain rfl : e = e' := by simpa [hcaller] using h'
    exact hnamed

/-! ### Deaths which are not -/

/-- The template's handler takes its steps. -/
theorem run_template (id : RunnerId) (status : WaitStatus) :
    runFrom step (awaiting .template id)
        [.die status, .templateWaitpid, .templateKill, .templateSemPost] =
      some { awaiting .template id with
        branch := .reaped, pending := status.signalMcmini } := by
  simp [runFrom_cons, step, awaiting]

theorem run_mcmini (id : RunnerId) :
    runFrom step { awaiting .template id with branch := .reaped, pending := true }
        [.setSignal, .semPost, .semWait, .tryConsumeSignal, .waitpid] =
      some { awaiting .template id with branch := .reaped, caller := .threw noSuchChild } := by
  simp [runFrom_cons, step, awaiting, State.waitpid]

/-- **Which deaths are diagnosed.** For a branch of the template's: the exits with code `0`. -/
theorem diagnosed_iff (parent : Parent) (status : WaitStatus) (id : RunnerId) :
    (∀ actions s, (∀ a ∈ actions, a.OfDeath status) →
      runFrom step (awaiting parent id) actions = some s → Diagnosed id status actions s) ↔
      parent = .mcmini ∨ status = .exited 0 := by
  constructor
  · intro h
    cases parent with
    | mcmini => exact .inl rfl
    | template =>
      refine .inr ?_
      have htemplate := run_template id status
      cases hsignal : status.signalMcmini with
      | false =>
        rw [hsignal] at htemplate
        have hdiagnosed := h _ _ (by simp [Action.OfDeath]) htemplate
        exact absurd ⟨rfl, by simp [awaiting], by simp, ⟨rfl, rfl⟩, rfl, rfl⟩
          hdiagnosed.notBlocked
      | true =>
        rw [hsignal] at htemplate
        have hdiagnosed := h _ _ (by simp [Action.OfDeath])
          (runFrom_append_eq_some.mpr ⟨_, htemplate, run_mcmini id⟩)
        have hnamed := hdiagnosed.named noSuchChild rfl
        cases status with
        | exited exitCode =>
          rcases hnamed with hzero | ⟨what, he⟩
          · rw [hzero]
          · cases he
        | signaled signo =>
          obtain ⟨what, he⟩ := hnamed
          cases he
  · intro hparent actions s hdeath hrun
    have hdying := dying_of_run hparent hrun hdeath
    have hlength := length_le_potential hrun hdeath
    refine ⟨hdying.notBlocked, fun e => hdying.named, hdying.ends, ?_⟩
    have hpotential : (awaiting parent id).potential = 9 := rfl
    omega

/-- A branch of the template's which is killed by a segmentation fault. -/
theorem not_diagnosed_of_sigsegv :
    ¬ ∀ status id actions s, (∀ a ∈ actions, Action.OfDeath status a) →
      runFrom step (awaiting .template id) actions = some s → Diagnosed id status actions s := by
  intro h
  have hdiagnosed := h (.signaled 11) 0 _ _ (by simp [Action.OfDeath])
    (runFrom_append_eq_some.mpr ⟨_, run_template 0 (.signaled 11), run_mcmini 0⟩)
  obtain ⟨what, he⟩ := hdiagnosed.named noSuchChild rfl
  cases he

end McMini.ExecuteRunner
