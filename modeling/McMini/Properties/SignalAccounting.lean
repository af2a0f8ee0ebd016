import McMini.RealWorld.ExecuteRunner

/-!
# Counted signals and posted reports

While `execute_runner` waits for a report, each unit of the semaphore it waits on stands for
the report or for a counted `SIGCHLD`. The handler posts after it has counted, so there are
never more units than counted signals, the report aside: a wait which finds the counter at `0`
was woken by the report (`State.Balanced`).

There can be fewer units. The handler posts the semaphore which was registered last, so what
it posts between two calls goes to the mailbox of the runner before, while the counter is
global. In the next call a signal remains counted when all units have been taken, and the
report has been taken for one of the signals (`State.Hung`). The call is safe exactly if at its
start the units of the runner's mailbox match the counter (`State.Matched`).
-/

namespace McMini.ExecuteRunner

open Foundation

variable {s s' : State} {a : Action} {id : RunnerId} {actions : List Action}

/-- The number of reports the call has got, or can get without the runner. -/
def State.reported (s : State) : ℕ :=
  match s.caller with
  | .waiting id | .woken id | .confirming id => if id ∈ s.childSideSem then 0 else 1
  | _ => 0

/-- The number of units which have been taken and not yet been looked into. -/
def State.taken (s : State) : ℕ :=
  match s.caller with
  | .woken _ => 1
  | _ => 0

/-- The runner which is executed. -/
def State.executing (s : State) : Option RunnerId :=
  match s.caller with
  | .scheduling id | .waiting id | .woken id | .confirming id => some id
  | _ => none

/-- The caller waits for a unit which does not come, although the runner has reported. -/
def State.Hung (s : State) : Prop :=
  ∃ id, s.caller = .waiting id ∧ id ∉ s.childSideSem ∧ id ∉ s.modelSideSem ∧
    s.pending = false ∧ s.handling = false

/-- Each counted signal has a unit in the runner's mailbox, or is about to get one. -/
def State.Matched (id : RunnerId) (s : State) : Prop :=
  s.sigchld = s.modelSideSem.count id + s.handling.toNat

/-- The branch is alive and a child of McMini, permits are given one at a time, and no unit
but the report's has not been counted as a signal. -/
structure State.Balanced (s : State) : Prop where
  parent : s.parent = .mcmini
  branch : s.branch = .running
  templateHandler : s.templateHandler = .idle
  templatePending : s.templatePending = false
  notThrown : ∀ e, s.caller ≠ .threw e
  permits : s.childSideSem = 0 ∨
    ∃ id, s.childSideSem = {id} ∧ s.executing = some id ∧ s.caller ≠ .scheduling id
  units : s.modelSideSem.card + s.handling.toNat + s.taken ≤ s.sigchld + s.reported

/-- The unit which a call returns with can only be the report's. -/
theorem State.Balanced.reported_of_returns (h : s.Balanced) (hcaller : s.caller = .woken id)
    (hsigchld : s.sigchld = 0) : id ∉ s.childSideSem := by
  intro hmem
  have hunits := h.units
  simp only [State.taken, State.reported, hcaller, if_pos hmem] at hunits
  omega

theorem State.Balanced.step (h : s.Balanced) (hstep : step a s = some s') (ha : ∀ status, a ≠ .die status) :
    s'.Balanced := by
  have hbalanced := h
  obtain ⟨hparent, hbranch, hidle, hpending, hthrown, hpermits, hunits⟩ := h
  cases a with
  | setSem id =>
    simp only [ExecuteRunner.step, Option.ite_none_right_eq_some, Option.some.injEq] at hstep
    obtain ⟨hcaller, rfl⟩ := hstep
    -- no call is under way, so no permit is
    have hnone : s.childSideSem = 0 := by
      rcases hpermits with h | ⟨id, -, h, -⟩
      · exact h
      · simp [State.executing, hcaller] at h
    refine ⟨hparent, hbranch, hidle, hpending, by simp, .inl hnone, ?_⟩
    simpa [State.taken, State.reported, hcaller] using hunits
  | wakeThread =>
    cases hcaller : s.caller with
    | scheduling id =>
      simp only [ExecuteRunner.step, hcaller, Option.some.injEq] at hstep
      subst hstep
      have hnone : s.childSideSem = 0 := by
        rcases hpermits with h | ⟨id', -, h, h'⟩
        · exact h
        · simp [State.executing, hcaller] at h
          simp [hcaller, h] at h'
      refine ⟨hparent, hbranch, hidle, hpending, by simp, .inr ⟨id, ?_, rfl, by simp⟩, ?_⟩
      · simp [hnone]
      · simpa [State.taken, State.reported, hcaller, hnone] using hunits
    | _ => simp [ExecuteRunner.step, hcaller] at hstep
  | semWait =>
    cases hcaller : s.caller with
    | waiting id =>
      simp only [ExecuteRunner.step, hcaller, Option.ite_none_right_eq_some,
        Option.some.injEq] at hstep
      obtain ⟨hunit, rfl⟩ := hstep
      refine ⟨hparent, hbranch, hidle, hpending, by simp, ?_, ?_⟩
      · simpa [State.executing, hcaller] using hpermits
      · have hcard := Multiset.card_erase_add_one hunit
        simp only [State.taken, State.reported, hcaller] at hunits ⊢
        omega
    | _ => simp [ExecuteRunner.step, hcaller] at hstep
  | tryConsumeSignal =>
    cases hcaller : s.caller with
    | woken id =>
      simp only [ExecuteRunner.step, hcaller] at hstep
      split_ifs at hstep with hsigchld
      · obtain rfl := Option.some.inj hstep
        refine ⟨hparent, hbranch, hidle, hpending, by simp, ?_, ?_⟩
        · simpa [State.executing, hcaller] using hpermits
        · simp only [State.taken, State.reported, hcaller] at hunits ⊢
          omega
      · obtain rfl := Option.some.inj hstep
        -- no signal has been counted: the unit is the one of the report, which has used the permit
        -- up
        have hreported := hbalanced.reported_of_returns hcaller (by omega)
        have hnone : s.childSideSem = 0 := by
          rcases hpermits with h | ⟨id', h, h', -⟩
          · exact h
          · simp [State.executing, hcaller] at h'
            simp [h, h'] at hreported
        refine ⟨hparent, hbranch, hidle, hpending, by simp, .inl hnone, ?_⟩
        simp only [State.taken, State.reported, hcaller, if_neg hreported] at hunits ⊢
        omega
    | _ => simp [ExecuteRunner.step, hcaller] at hstep
  | waitpid =>
    cases hcaller : s.caller with
    | confirming id =>
      -- the branch is alive, so the caller goes back to its wait
      have hwaitpid : s.waitpid id = { s with caller := .waiting id } := by
        simp only [State.waitpid, hparent, hbranch]
      simp only [ExecuteRunner.step, hcaller, hwaitpid, Option.some.injEq] at hstep
      subst hstep
      refine ⟨hparent, hbranch, hidle, hpending, by simp, ?_, ?_⟩
      · simpa [State.executing, hcaller] using hpermits
      · simpa [State.taken, State.reported, hcaller] using hunits
    | _ => simp [ExecuteRunner.step, hcaller] at hstep
  | report id =>
    simp only [ExecuteRunner.step, Option.ite_none_right_eq_some, Option.some.injEq] at hstep
    obtain ⟨⟨-, hmem⟩, rfl⟩ := hstep
    -- only the runner of the call has a permit to report on
    obtain ⟨id', hpermit, hexecuting, hscheduled⟩ : ∃ id', s.childSideSem = {id'} ∧
        s.executing = some id' ∧ s.caller ≠ .scheduling id' := by
      rcases hpermits with h | h
      · simp [h] at hmem
      · exact h
    obtain rfl : id = id' := by simpa [hpermit] using hmem
    refine ⟨hparent, hbranch, hidle, hpending, hthrown, .inl (by simp [hpermit]), ?_⟩
    cases hcaller : s.caller with
    | scheduling id' => simp [State.executing, hcaller] at hexecuting; simp [hcaller, hexecuting] at hscheduled
    | waiting id' | woken id' | confirming id' =>
      obtain rfl : id' = id := by simpa [State.executing, hcaller] using hexecuting
      simp [State.taken, State.reported, hcaller, hpermit] at hunits ⊢
      omega
    | _ => simp [State.executing, hcaller] at hexecuting
  | setSignal =>
    simp only [ExecuteRunner.step, Option.ite_none_right_eq_some, Option.some.injEq] at hstep
    obtain ⟨⟨-, hhandling⟩, rfl⟩ := hstep
    refine ⟨hparent, hbranch, hidle, hpending, hthrown, hpermits, ?_⟩
    -- the signal is counted before its unit is posted
    have hnone : s.handling.toNat = 0 := by simpa using hhandling
    change s.modelSideSem.card + 1 + s.taken ≤ s.sigchld + 1 + s.reported
    omega
  | semPost =>
    simp only [ExecuteRunner.step, Option.ite_none_right_eq_some, Option.some.injEq] at hstep
    obtain ⟨hhandling, rfl⟩ := hstep
    refine ⟨hparent, hbranch, hidle, hpending, hthrown, hpermits, ?_⟩
    have hone : s.handling.toNat = 1 := by simp [hhandling]
    -- a handler which finds no mailbox posts nothing, which the inequality allows for
    have hcard : (s.currentSem.toList + s.modelSideSem : Multiset RunnerId).card ≤
        1 + s.modelSideSem.card := by
      rw [Multiset.card_add]
      cases s.currentSem <;> simp
    change (s.currentSem.toList + s.modelSideSem : Multiset RunnerId).card + 0 + s.taken ≤
      s.sigchld + s.reported
    omega
  | otherDies =>
    obtain rfl := Option.some.inj hstep
    exact ⟨hparent, hbranch, hidle, hpending, hthrown, hpermits, hunits⟩
  | die status => exact absurd rfl (ha status)
  | templateWaitpid => simp [ExecuteRunner.step, hpending] at hstep
  | templateKill => simp [ExecuteRunner.step, hidle] at hstep
  | templateSemPost => simp [ExecuteRunner.step, hidle] at hstep

/-- Within a call whose start was matched, the units of the runner's mailbox stand for the
counted signals and the report. -/
def State.Accounted (s : State) : Prop :=
  ∀ id, s.executing = some id → s.currentSem = some id ∧
    s.sigchld + s.reported = s.modelSideSem.count id + s.handling.toNat + s.taken

theorem State.Accounted.step (h : s.Accounted) (hbalanced : s.Balanced)
    (hstep : step a s = some s') (ha : ∀ status, a ≠ .die status)
    (hmatched : ∀ id, a = .setSem id → s.Matched id) : s'.Accounted := by
  intro id hid
  cases a with
  | setSem id' =>
    simp only [ExecuteRunner.step, Option.ite_none_right_eq_some, Option.some.injEq] at hstep
    obtain ⟨-, rfl⟩ := hstep
    obtain rfl : id' = id := by simpa [State.executing] using hid
    exact ⟨rfl, hmatched id' rfl⟩
  | wakeThread =>
    cases hcaller : s.caller with
    | scheduling id' =>
      simp only [ExecuteRunner.step, hcaller, Option.some.injEq] at hstep
      subst hstep
      obtain rfl : id' = id := by simpa [State.executing] using hid
      have hold := h id' (by simp [State.executing, hcaller])
      simpa [State.reported, State.taken, hcaller] using hold
    | _ => simp [ExecuteRunner.step, hcaller] at hstep
  | semWait =>
    cases hcaller : s.caller with
    | waiting id' =>
      simp only [ExecuteRunner.step, hcaller, Option.ite_none_right_eq_some,
        Option.some.injEq] at hstep
      obtain ⟨hunit, rfl⟩ := hstep
      obtain rfl : id' = id := by simpa [State.executing] using hid
      obtain ⟨hsem, hold⟩ := h id' (by simp [State.executing, hcaller])
      -- the unit which the caller takes stands for a signal or for the report
      have hcount := Multiset.count_pos.mpr hunit
      refine ⟨hsem, ?_⟩
      simp only [State.reported, State.taken, hcaller, Multiset.count_erase_self] at hold ⊢
      omega
    | _ => simp [ExecuteRunner.step, hcaller] at hstep
  | tryConsumeSignal =>
    cases hcaller : s.caller with
    | woken id' =>
      simp only [ExecuteRunner.step, hcaller] at hstep
      split_ifs at hstep with hsigchld
      · obtain rfl := Option.some.inj hstep
        obtain rfl : id' = id := by simpa [State.executing] using hid
        obtain ⟨hsem, hold⟩ := h id' (by simp [State.executing, hcaller])
        refine ⟨hsem, ?_⟩
        simp only [State.reported, State.taken, hcaller] at hold ⊢
        omega
      · obtain rfl := Option.some.inj hstep
        simp [State.executing] at hid
    | _ => simp [ExecuteRunner.step, hcaller] at hstep
  | waitpid =>
    cases hcaller : s.caller with
    | confirming id' =>
      have hwaitpid : s.waitpid id' = { s with caller := .waiting id' } := by
        simp only [State.waitpid, hbalanced.parent, hbalanced.branch]
      simp only [ExecuteRunner.step, hcaller, hwaitpid, Option.some.injEq] at hstep
      subst hstep
      obtain rfl : id' = id := by simpa [State.executing] using hid
      have hold := h id' (by simp [State.executing, hcaller])
      simpa [State.reported, State.taken, hcaller] using hold
    | _ => simp [ExecuteRunner.step, hcaller] at hstep
  | report id' =>
    simp only [ExecuteRunner.step, Option.ite_none_right_eq_some, Option.some.injEq] at hstep
    obtain ⟨⟨-, hmem⟩, rfl⟩ := hstep
    obtain ⟨hsem, hold⟩ := h id hid
    -- the report uses the permit up, and is a unit instead
    obtain ⟨id'', hpermit, hexecuting, hscheduled⟩ : ∃ id'', s.childSideSem = {id''} ∧
        s.executing = some id'' ∧ s.caller ≠ .scheduling id'' := by
      rcases hbalanced.permits with h | h
      · simp [h] at hmem
      · exact h
    obtain rfl : id' = id'' := by simpa [hpermit] using hmem
    obtain rfl : id' = id := Option.some.inj (hexecuting.symm.trans hid)
    refine ⟨hsem, ?_⟩
    cases hcaller : s.caller with
    | scheduling id'' =>
      obtain rfl : id'' = id' := by simpa [State.executing, hcaller] using hexecuting
      exact absurd hcaller hscheduled
    | waiting id'' | woken id'' | confirming id'' =>
      obtain rfl : id'' = id' := by simpa [State.executing, hcaller] using hexecuting
      simp [State.taken, State.reported, hcaller, hpermit] at hold ⊢
      omega
    | _ => simp [State.executing, hcaller] at hexecuting
  | setSignal =>
    simp only [ExecuteRunner.step, Option.ite_none_right_eq_some, Option.some.injEq] at hstep
    obtain ⟨⟨-, hhandling⟩, rfl⟩ := hstep
    obtain ⟨hsem, hold⟩ := h id hid
    have hnone : s.handling.toNat = 0 := by simpa using hhandling
    refine ⟨hsem, ?_⟩
    change s.sigchld + 1 + s.reported = s.modelSideSem.count id + 1 + s.taken
    omega
  | semPost =>
    simp only [ExecuteRunner.step, Option.ite_none_right_eq_some, Option.some.injEq] at hstep
    obtain ⟨hhandling, rfl⟩ := hstep
    obtain ⟨hsem, hold⟩ := h id hid
    have hone : s.handling.toNat = 1 := by simp [hhandling]
    -- the mailbox which the handler posts is the one of the call
    have hcount : (s.currentSem.toList + s.modelSideSem : Multiset RunnerId).count id =
        1 + s.modelSideSem.count id := by
      rw [Multiset.count_add, hsem]
      simp
    refine ⟨hsem, ?_⟩
    change s.sigchld + s.reported =
      (s.currentSem.toList + s.modelSideSem : Multiset RunnerId).count id + 0 + s.taken
    omega
  | otherDies =>
    obtain rfl := Option.some.inj hstep
    exact h id hid
  | die status => exact absurd rfl (ha status)
  | templateWaitpid => simp [ExecuteRunner.step, hbalanced.templatePending] at hstep
  | templateKill => simp [ExecuteRunner.step, hbalanced.templateHandler] at hstep
  | templateSemPost => simp [ExecuteRunner.step, hbalanced.templateHandler] at hstep

/-- The steps of one call while the branch is alive. -/
def Action.InCall : Action → Prop
  | .setSem _ | .die _ => False
  | _ => True

/-- A caller whose mailbox has fewer units than signals are counted takes them all. -/
theorem exists_hung_of_count_le (hparent : s.parent = .mcmini) (hbranch : s.branch = .running)
    (hcaller : s.caller = .waiting id) (hreported : id ∉ s.childSideSem)
    (hpending : s.pending = false) (hhandling : s.handling = false)
    (hcount : s.modelSideSem.count id ≤ s.sigchld) :
    ∃ rest s', (∀ a ∈ rest, a.InCall) ∧ runFrom step s rest = some s' ∧ s'.Hung := by
  induction hn : s.modelSideSem.count id generalizing s with
  | zero =>
    exact ⟨[], s, by simp, rfl, id, hcaller, hreported, Multiset.count_eq_zero.mp hn, hpending,
      hhandling⟩
  | succ n ih =>
    have hunit : id ∈ s.modelSideSem := Multiset.count_pos.mp (by omega)
    have hsigchld : 0 < s.sigchld := by omega
    let s₁ : State := { s with
      modelSideSem := s.modelSideSem.erase id
      sigchld := s.sigchld - 1
      caller := .waiting id }
    have hcount₁ : s₁.modelSideSem.count id = n := by
      rw [Multiset.count_erase_self]
      omega
    have hrun : runFrom step s [.semWait, .tryConsumeSignal, .waitpid] = some s₁ := by
      simp [runFrom_cons, step, hcaller, hunit, hsigchld, State.waitpid, hparent, hbranch, s₁]
    obtain ⟨rest, s', hrest, hrun', hhung⟩ := ih hparent hbranch rfl hreported hpending hhandling
      (s := s₁) (hcount₁ ▸ (by change n ≤ s.sigchld - 1; omega)) hcount₁
    refine ⟨[.semWait, .tryConsumeSignal, .waitpid] ++ rest, s', ?_,
      runFrom_append_eq_some.mpr ⟨s₁, hrun, hrun'⟩, hhung⟩
    exact List.forall_mem_append.mpr ⟨by simp [Action.InCall], hrest⟩

/-- The state in which the handler has finished, also with the signal which is pending. -/
def State.handled (id : RunnerId) (s : State) : State := { s with
  pending := false
  handling := false
  sigchld := s.sigchld + s.pending.toNat
  modelSideSem := .replicate (s.pending.toNat + s.handling.toNat) id + s.modelSideSem }

theorem exists_handled (hsem : s.currentSem = some id) :
    ∃ rest, (∀ a ∈ rest, a.InCall) ∧ runFrom step s rest = some (s.handled id) := by
  cases hhandling : s.handling with
  | false =>
    cases hpending : s.pending with
    | false =>
      refine ⟨[], by simp, ?_⟩
      cases s
      simp_all [State.handled]
    | true =>
      exact ⟨[.setSignal, .semPost], by simp [Action.InCall],
        by simp [runFrom_cons, step, State.handled, hhandling, hpending, hsem]⟩
  | true =>
    cases hpending : s.pending with
    | false =>
      exact ⟨[.semPost], by simp [Action.InCall],
        by simp [runFrom_cons, step, State.handled, hhandling, hpending, hsem]⟩
    | true =>
      exact ⟨[.semPost, .setSignal, .semPost], by simp [Action.InCall],
        by simp [runFrom_cons, step, State.handled, hhandling, hpending, hsem]⟩

/-- A call whose start is not matched can be left hanging. -/
theorem State.Balanced.exists_hung (h : s.Balanced) (hcaller : s.caller = .idle)
    (hmatched : ¬ s.Matched id) :
    ∃ rest s', (∀ a ∈ rest, a.InCall) ∧ runFrom ExecuteRunner.step s (.setSem id :: rest) = some s' ∧
      s'.Hung := by
  have hunits := h.units
  have hnone : s.childSideSem = 0 := by
    rcases h.permits with h | ⟨id, -, h, -⟩
    · exact h
    · simp [State.executing, hcaller] at h
  have hless : s.modelSideSem.count id + s.handling.toNat < s.sigchld := by
    have hcard := Multiset.count_le_card id s.modelSideSem
    simp only [State.taken, State.reported, hcaller] at hunits
    unfold State.Matched at hmatched
    omega
  let s₁ : State := { s with
    caller := .waiting id
    currentSem := some id
    modelSideSem := id ::ₘ s.modelSideSem }
  have hrun₁ : runFrom ExecuteRunner.step s [.setSem id, .wakeThread, .report id] = some s₁ := by
    simp [runFrom_cons, ExecuteRunner.step, hcaller, h.branch, hnone, s₁]
  obtain ⟨rest₁, hrest₁, hrun₂⟩ := @exists_handled s₁ id rfl
  have hcount : (s₁.handled id).modelSideSem.count id ≤ (s₁.handled id).sigchld := by
    simp only [State.handled, Multiset.count_add, Multiset.count_replicate_self, s₁,
      Multiset.count_cons_self]
    omega
  obtain ⟨rest₂, s', hrest₂, hrun₃, hhung⟩ := @exists_hung_of_count_le (s₁.handled id) id
    h.parent h.branch rfl (by simp [State.handled, s₁, hnone]) rfl rfl hcount
  refine ⟨[.wakeThread, .report id] ++ rest₁ ++ rest₂, s', ?_, ?_, hhung⟩
  · refine List.forall_mem_append.mpr ⟨List.forall_mem_append.mpr ⟨?_, hrest₁⟩, hrest₂⟩
    simp [Action.InCall]
  · have hwhole : Action.setSem id :: ([.wakeThread, .report id] ++ rest₁ ++ rest₂) =
        [.setSem id, .wakeThread, .report id] ++ (rest₁ ++ rest₂) := by simp
    rw [hwhole, runFrom_append_eq_some]
    exact ⟨s₁, hrun₁, runFrom_append_eq_some.mpr ⟨_, hrun₂, hrun₃⟩⟩

/-- Signals and mailboxes when the branch has been created. -/
def start : State := { parent := .mcmini }

/-- Every call of the run starts with a mailbox which matches the counter. -/
def CallsMatched (actions : List Action) : Prop :=
  ∀ pre a, pre ++ [a] <+: actions → ∀ id, a = .setSem id →
    ∀ s, runFrom step start pre = some s → s.Matched id

theorem balanced_start : start.Balanced where
  parent := rfl
  branch := rfl
  templateHandler := rfl
  templatePending := rfl
  notThrown := by simp [start]
  permits := .inl rfl
  units := by decide

theorem balanced_of_run (hrun : runFrom step start actions = some s)
    (halive : ∀ status, .die status ∉ actions) : s.Balanced := by
  refine runFrom_induction (P := fun actions s => (∀ status, .die status ∉ actions) →
    s.Balanced) (fun _ => balanced_start) ?_ hrun halive
  intro actions s a s' _ ih hstep halive
  have hbefore : ∀ status, .die status ∉ actions := fun status hmem =>
    halive status (List.mem_append_left _ hmem)
  exact (ih hbefore).step hstep fun status ha => halive status (by simp [ha])

theorem accounted_of_run (hrun : runFrom step start actions = some s)
    (halive : ∀ status, .die status ∉ actions)
    (hmatched : CallsMatched actions) : s.Accounted := by
  refine runFrom_induction (P := fun actions s => (∀ status, .die status ∉ actions) →
    CallsMatched actions → s.Accounted) ?_ ?_ hrun halive hmatched
  · intro _ _ id hid
    cases hid
  · intro actions s a s' hrun ih hstep halive hmatched
    have hbefore : ∀ status, .die status ∉ actions := fun status hmem =>
      halive status (List.mem_append_left _ hmem)
    obtain ⟨hmatched, hlast⟩ := forall_prefix_concat.mp hmatched
    exact (ih hbefore hmatched).step (balanced_of_run hrun hbefore) hstep
      (fun status ha => halive status (by simp [ha])) fun id ha => hlast id ha s hrun

theorem State.Accounted.not_hung (h : s.Accounted) : ¬ s.Hung := by
  rintro ⟨id, hcaller, hreported, hunit, -, hhandling⟩
  obtain ⟨-, hunits⟩ := h id (by simp [State.executing, hcaller])
  simp only [State.reported, State.taken, hcaller, if_neg hreported,
    Multiset.count_eq_zero_of_notMem hunit, hhandling, Bool.toNat_false] at hunits
  omega

/-- **Signals and reports.** A call returns only after the runner has reported. In a run whose
calls all start with a mailbox which matches the counter no call is left hanging, and a call
which starts with any other mailbox can be. -/
theorem not_hung_of_matched (hrun : runFrom step start actions = some s)
    (halive : ∀ status, .die status ∉ actions) :
    (∀ id, s.caller = .woken id → s.sigchld = 0 → id ∉ s.childSideSem) ∧
      (CallsMatched actions → ¬ s.Hung) ∧
      ∀ id, s.caller = .idle → ¬ s.Matched id → ∃ rest s', (∀ a ∈ rest, a.InCall) ∧
        runFrom step s (.setSem id :: rest) = some s' ∧ s'.Hung := by
  have hbalanced := balanced_of_run hrun halive
  refine ⟨fun id => hbalanced.reported_of_returns, fun hmatched => ?_, fun id => hbalanced.exists_hung⟩
  exact (accounted_of_run hrun halive hmatched).not_hung

/-- A descendant dies when runner `0` has been executed, before runner `1` is. -/
theorem hung_of_signal_between_calls :
    ¬ ∀ actions s, (∀ status, Action.die status ∉ actions) →
      runFrom step start actions = some s →
      (∀ id, s.caller = .woken id → s.sigchld = 0 → id ∉ s.childSideSem) ∧ ¬ s.Hung := by
  intro h
  have hrun : runFrom step start [.setSem 0, .wakeThread, .report 0, .semWait, .tryConsumeSignal,
      .otherDies, .setSignal, .semPost, .setSem 1, .wakeThread, .report 1, .semWait,
      .tryConsumeSignal, .waitpid] = some { start with
        caller := .waiting 1, currentSem := some 1, modelSideSem := {0} } := by decide
  obtain ⟨-, hnot⟩ := h _ _ (by simp) hrun
  exact hnot ⟨1, rfl, by decide, by decide, rfl, rfl⟩

/-- A descendant dies while runner `0` is executed. -/
theorem not_hung_of_signal_within_call :
    ¬ State.Hung { start with caller := .waiting 0, currentSem := some 0, modelSideSem := {0} } := by
  have hrun : runFrom step start [.setSem 0, .wakeThread, .otherDies, .setSignal, .report 0,
      .semWait, .tryConsumeSignal, .waitpid, .semPost] = some { start with
        caller := .waiting 0, currentSem := some 0, modelSideSem := {0} } := by decide
  refine (not_hung_of_matched hrun (by simp)).2.1 ?_
  simp only [CallsMatched, forall_prefix_cons]
  simp [start, State.Matched]

end McMini.ExecuteRunner
