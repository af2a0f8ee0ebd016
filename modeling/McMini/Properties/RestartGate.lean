import McMini.Properties.RecreatedThreads

/-!
# Whether a branch gets to McMini

The threads of a branch wait at a gate which the template thread of the branch opens: they test the
mode under `template_thread_mut`, which `_Fork` has copied as it was in the template. There the
threads of the program use it too, at any time. If one of them held it when the branch was forked,
nobody in the branch can ever unlock it, and none of its threads gets to McMini
(`Gate.Jammed`). Otherwise, whatever the threads of the branch do and however waits end, all of them
still can (`Gate.Sound`).

A branch behaves as the gate does (`gate_stepUser`, `gate_stepTemplate`). A thread which has not
been created yet counts as one which is on its way.

The threads also log on their way. Of the locks which this takes, `log_mut` is initialized anew in a
branch before its threads are created, and the one of `stdout`, which nobody resets, is taken to be
free when the branch is forked.
-/

namespace McMini.Restart

open Foundation TargetThread Transfer

variable {p p' : Process} {k : ℕ} {u : User} {l : Locals} {place : Place}
  {recList : List RecordedObject}

/-! ### The gate of a branch -/

def Place.passer : Place → Gate.Passer
  | .saved => .away 1
  | .switching => .away 0
  | .locking => .locking
  | .testing => .testing
  | .waiting => .waiting
  | .reacquiring => .reacquiring
  | .unlocking => .unlocking
  | .awaiting => .through
  | .allocated | .cleared | .described | .aborted => .away 0

def UserPc.passer : UserPc → Gate.Passer
  | .handling _ place => place.passer
  | _ => .away 0

def TemplatePc.opener : TemplatePc → Gate.Opener
  | .locking => .locking
  | .broadcasting => .broadcasting
  | .unlocking => .unlocking
  | .finished => .done
  | _ => .closed

/-- The branch as a gate. -/
def Process.gate (p : Process) : Gate.State where
  isOpen := p.mode = .targetBranchAfterRestart
  mutex := p.templateThreadMut
  passers := p.users.map (·.pc.passer) ++ List.replicate (p.threadIdx - p.users.length) (.away 2)
  opener := p.template.opener

theorem gate_passers_getElem? (hu : p.users[k]? = some u) :
    p.gate.passers[k]? = some u.pc.passer := by
  have hlt : k < p.users.length := (List.getElem?_eq_some_iff.mp hu).1
  show (p.users.map _ ++ _)[k]? = _
  rw [List.getElem?_append_left (by rwa [List.length_map]), List.getElem?_map, hu]
  rfl

/-- A thread moves on, and so does the one at the gate. -/
theorem gate_goTo (hu : p.users[k]? = some u) (m : Option Gate.Owner) :
    Process.gate { p.goTo k u (.handling l place) with templateThreadMut := m } =
      { p.gate.moveTo k place.passer with mutex := m } := by
  have hlt : k < p.users.length := (List.getElem?_eq_some_iff.mp hu).1
  have hpassers : (p.users.set k { u with pc := .handling l place }).map (·.pc.passer) ++
      List.replicate (p.threadIdx - (p.users.set k { u with pc := .handling l place }).length)
        (.away 2) = p.gate.passers.set k place.passer := by
    rw [List.map_set, List.length_set]
    exact (List.set_append_left k place.passer (by rwa [List.length_map])).symm
  exact congrArg (fun ps => (⟨p.gate.isOpen, m, ps, p.gate.opener⟩ : Gate.State)) hpassers

/-- **A thread of the branch does what the one at the gate does.** -/
theorem gate_stepUser (h : Forked recList p) (hu : p.users[k]? = some u) :
    (p.stepUser k u).map (·.gate) = Gate.step (.pass k) p.gate := by
  obtain ⟨l, place, hpc, hfrom, hplace⟩ := h.resumed u (List.mem_of_getElem? hu)
  have hpasser : p.gate.passers[k]? = some place.passer := by
    rw [gate_passers_getElem? hu, hpc]
    rfl
  have hlock : (p.lockAndTest k u l).map (·.gate) = p.gate.lockAndTest k := by
    unfold Process.lockAndTest Gate.State.lockAndTest
    by_cases hfree : p.templateThreadMut = none
    · rw [if_pos hfree, if_pos (show p.gate.mutex = none from hfree)]
      exact congrArg some (gate_goTo hu _)
    · rw [if_neg hfree, if_neg (show ¬ p.gate.mutex = none from hfree)]
      rfl
  simp only [Process.stepUser, hpc]
  cases place with
  | allocated | cleared | described | aborted => exact hplace.elim
  | saved =>
    simp only [Process.stepHandling, if_neg hfrom.origPid.symm, Gate.step, hpasser, Place.passer]
    exact congrArg some (gate_goTo hu _)
  | switching =>
    simp only [Process.stepHandling, hfrom.modeOnEntry, Gate.step, hpasser, Place.passer]
    exact congrArg some (gate_goTo hu _)
  | locking =>
    simp only [Process.stepHandling, Gate.step, hpasser, Place.passer]
    exact hlock
  | reacquiring =>
    simp only [Process.stepHandling, Gate.step, hpasser, Place.passer]
    exact hlock
  | testing =>
    simp only [Process.stepHandling, Gate.step, hpasser, Place.passer]
    by_cases hmode : p.mode = .targetBranchAfterRestart
    · rw [if_pos hmode, if_pos (show p.gate.isOpen = true from decide_eq_true hmode)]
      exact congrArg some (gate_goTo hu _)
    · have hclosed : ¬ p.gate.isOpen = true := fun h => hmode (of_decide_eq_true h)
      rw [if_neg hmode, if_neg hclosed]
      exact congrArg some (gate_goTo hu _)
  | unlocking =>
    simp only [Process.stepHandling, Gate.step, hpasser, Place.passer]
    exact congrArg some (gate_goTo hu _)
  | waiting | awaiting =>
    simp only [Process.stepHandling, Gate.step, hpasser, Place.passer]
    rfl

/-- A wait in the branch ends for no reason when one at the gate does. -/
theorem gate_wake (h : Forked recList p) (hu : p.users[k]? = some u) :
    (p.step (.wake k)).map (·.gate) = Gate.step (.wake k) p.gate := by
  obtain ⟨l, place, hpc, -, hplace⟩ := h.resumed u (List.mem_of_getElem? hu)
  have hpasser : p.gate.passers[k]? = some place.passer := by
    rw [gate_passers_getElem? hu, hpc]
    rfl
  simp only [Process.step, hu, Option.bind_some, hpc, Gate.step, hpasser]
  cases place with
  | waiting => exact congrArg some (gate_goTo hu _)
  | allocated | cleared | described | aborted => exact hplace.elim
  | saved | switching | locking | testing | reacquiring | unlocking | awaiting => rfl

theorem passer_woken (h : Forked recList p) (hu : u ∈ p.users) :
    u.woken.pc.passer = u.pc.passer.woken := by
  obtain ⟨l, place, hpc, -⟩ := h.resumed u hu
  rw [User.woken, hpc]
  cases place <;> rfl

/-- **The template thread of a branch in which all threads have been created opens the gate.** -/
theorem gate_stepTemplate (h : Forked recList p) (hdone : ∀ i n, p.template ≠ .recreating i n) :
    p.stepTemplate.map (·.gate) = Gate.step .openGate p.gate := by
  have htemplate := h.template
  cases ht : p.template with
  | sleeping | barrier | publishing | waitingForRequest | waitingForDeath =>
    rw [ht] at htemplate
    exact htemplate.elim
  | recreating i n => exact absurd ht (hdone i n)
  | opening =>
    simp only [Process.stepTemplate, ht, Gate.step, Process.gate, TemplatePc.opener]
    rfl
  | locking =>
    simp only [Process.stepTemplate, ht, Gate.step, Process.gate, TemplatePc.opener]
    split_ifs <;> rfl
  | broadcasting =>
    simp only [Process.stepTemplate, ht, Gate.step, Process.gate, TemplatePc.opener]
    have husers : (p.users.map (·.woken)).map (·.pc.passer) =
        (p.users.map (·.pc.passer)).map (·.woken) := by
      rw [List.map_map, List.map_map]
      exact List.map_congr_left fun u hu => passer_woken h hu
    rw [List.map_append, List.map_replicate, ← husers]
    simp only [Option.map_some, List.length_map]
    rfl
  | unlocking =>
    simp only [Process.stepTemplate, ht, Gate.step, Process.gate, TemplatePc.opener]
    rfl
  | finished =>
    simp only [Process.stepTemplate, ht, Gate.step, Process.gate, TemplatePc.opener]
    rfl

/-- As long as they have not, it creates one or is done with it. -/
theorem gate_recreating (h : Forked recList p) {i n : ℕ} (ht : p.template = .recreating i n)
    (hstep : p.stepTemplate = some p') :
    Gate.step (.pass p.users.length) p.gate = some p'.gate ∨ p'.gate = p.gate := by
  have htemplate := h.template
  rw [ht] at htemplate
  obtain ⟨hle, rfl⟩ := htemplate
  have hlength : p.users.length = i := by
    have heq := congrArg List.length h.users
    rw [ht, List.length_map, Process.descriptors, List.length_map, List.length_range] at heq
    exact heq
  simp only [Process.stepTemplate, ht] at hstep
  split_ifs at hstep with hlt
  · refine .inl ?_
    rw [← Option.some.inj hstep]
    obtain ⟨-, l, hl, -⟩ := h.infos i hlt
    have hrest : p.threadIdx - p.users.length = p.threadIdx - (i + 1) + 1 := by omega
    have hpassers : p.gate.passers = p.users.map (·.pc.passer) ++
        .away 2 :: List.replicate (p.threadIdx - (i + 1)) (.away 2) := by
      show p.users.map _ ++ List.replicate (p.threadIdx - p.users.length) _ = _
      rw [hrest, List.replicate_succ]
    have hnext : p.gate.passers[p.users.length]? = some (.away 2) := by
      rw [hpassers, List.getElem?_append_right (by rw [List.length_map]), List.length_map,
        Nat.sub_self]
      rfl
    have hset : p.gate.passers.set p.users.length (.away 1) =
        (p.users ++ [(p.threadInfos i).recreate]).map (·.pc.passer) ++
          List.replicate (p.threadIdx - (p.users ++ [(p.threadInfos i).recreate]).length)
            (.away 2) := by
      rw [hpassers, List.set_append_right _ _ (by rw [List.length_map]), List.length_map,
        Nat.sub_self, List.set_cons_zero, List.map_append, List.length_append, hlength,
        List.append_assoc]
      simp only [ThreadInfo.recreate, hl]
      rfl
    simp only [Gate.step, hnext]
    refine congrArg some ?_
    show (⟨_, _, p.gate.passers.set p.users.length (.away 1), _⟩ : Gate.State) = _
    rw [hset]
    simp only [Process.gate, ht, TemplatePc.opener]
  · refine .inr ?_
    rw [← Option.some.inj hstep]
    simp only [Process.gate, ht, TemplatePc.opener]

/-- A step of the branch is one of the gate, or does not concern it. -/
theorem gate_step {a : ThreadAction} (h : Forked recList p) (hstep : p.step a = some p') :
    p'.gate = p.gate ∨ ∃ a, Gate.step a p.gate = some p'.gate := by
  cases a with
  | user k =>
    obtain ⟨u, hu, hstep⟩ := Option.bind_eq_some_iff.mp hstep
    exact .inr ⟨.pass k, by rw [← gate_stepUser h hu, hstep]; rfl⟩
  | create k t =>
    obtain ⟨u, hu, hstep⟩ := Option.bind_eq_some_iff.mp hstep
    obtain ⟨l, place, hpc, -⟩ := h.resumed u (List.mem_of_getElem? hu)
    rw [hpc] at hstep
    cases hstep
  | object k location state =>
    obtain ⟨u, hu, hstep⟩ := Option.bind_eq_some_iff.mp hstep
    obtain ⟨l, place, hpc, -⟩ := h.resumed u (List.mem_of_getElem? hu)
    rw [hpc] at hstep
    cases hstep
  | wake k =>
    obtain ⟨u, hu, -⟩ := Option.bind_eq_some_iff.mp hstep
    exact .inr ⟨.wake k, by rw [← gate_wake h hu, hstep]; rfl⟩
  | template =>
    by_cases hdone : ∀ i n, p.template ≠ .recreating i n
    · have hsame := gate_stepTemplate h hdone
      rw [show p.stepTemplate = some p' from hstep] at hsame
      exact .inr ⟨.openGate, hsame.symm⟩
    · push Not at hdone
      obtain ⟨i, n, ht⟩ := hdone
      rcases gate_recreating h ht hstep with hpass | hsame
      · exact .inr ⟨_, hpass⟩
      · exact .inl hsame

/-- What the steps of a gate keep, those of a branch keep. -/
theorem gate_invariant {P : Gate.State → Prop} {a : ThreadAction}
    (hP : ∀ g a g', P g → Gate.step a g = some g' → P g') (h : Forked recList p)
    (hstep : p.step a = some p') (hp : P p.gate) : P p'.gate := by
  rcases gate_step h hstep with hsame | ⟨a, hgate⟩
  · exact hsame ▸ hp
  · exact hP _ a _ hp hgate

theorem awaits_iff (h : Forked recList p) (hu : u ∈ p.users) :
    u.pc.passer = .through ↔ u.Awaits := by
  obtain ⟨l, place, hpc, -⟩ := h.resumed u hu
  rw [User.Awaits, hpc]
  cases place <;> simp [UserPc.passer, Place.passer]

/-! ### Runs of a branch -/

/-- All threads have been created. -/
def Process.Created (p : Process) : Prop := ∀ i n, p.template ≠ .recreating i n

theorem created_stepTemplate (h : Forked recList p) (hcreated : p.Created)
    (hstep : p.stepTemplate = some p') : p'.Created := by
  have htemplate := h.template
  rintro i n ht
  cases hpc : p.template with
  | sleeping | barrier | publishing | waitingForRequest | waitingForDeath =>
    rw [hpc] at htemplate
    exact htemplate.elim
  | recreating i n => exact hcreated i n hpc
  | finished =>
    simp only [Process.stepTemplate, hpc] at hstep
    cases hstep
  | locking =>
    simp only [Process.stepTemplate, hpc] at hstep
    split_ifs at hstep
    rw [← Option.some.inj hstep] at ht
    cases ht
  | opening | broadcasting | unlocking =>
    simp only [Process.stepTemplate, hpc] at hstep
    rw [← Option.some.inj hstep] at ht
    cases ht

/-- The steps which the template thread has to take until all threads have been created. -/
def TemplatePc.toCreate : TemplatePc → ℕ
  | .recreating i n => n - i + 1
  | _ => 0

theorem exists_create (hcreated : ¬ p.Created) :
    ∃ p', p.step .template = some p' ∧ p'.template.toCreate < p.template.toCreate := by
  unfold Process.Created at hcreated
  push Not at hcreated
  obtain ⟨i, n, ht⟩ := hcreated
  rw [Process.step, Process.stepTemplate, ht]
  dsimp only
  by_cases hlt : i < n
  · rw [if_pos hlt]
    refine ⟨_, rfl, ?_⟩
    simp only [TemplatePc.toCreate]
    omega
  · rw [if_neg hlt]
    exact ⟨_, rfl, Nat.succ_pos _⟩

/-- The template thread can go on until it has created all threads. -/
theorem exists_created (p : Process) :
    ∃ as p', runFrom Process.step p as = some p' ∧ p'.Created := by
  have hprogress : ∀ p : Process, True → ¬ p.Created → ∃ a p', p.step a = some p' ∧ True ∧
      p'.template.toCreate < p.template.toCreate := by
    intro p _ hcreated
    obtain ⟨p', hstep, hlt⟩ := exists_create hcreated
    exact ⟨.template, p', hstep, trivial, hlt⟩
  obtain ⟨as, p', hrun, -, hcreated⟩ :=
    exists_run_of_descent (fun p : Process => p.template.toCreate) hprogress (s := p) trivial
  exact ⟨as, p', hrun, hcreated⟩

/-- In a branch whose threads have been created, what can be done at the gate can be done. -/
theorem exists_step_of_gate {a : Gate.Action} {g : Gate.State} (h : Forked recList p)
    (hcreated : p.Created) (hstep : Gate.step a p.gate = some g) :
    ∃ a' p', p.step a' = some p' ∧ p'.gate = g ∧ p'.Created := by
  have hpassers : p.gate.passers = p.users.map (·.pc.passer) := by
    have hlength : p.users.length = p.threadIdx := by
      have heq := ((h.users_perm hcreated).trans h.perm.symm).length_eq
      rw [List.length_map, Process.descriptors, List.length_map, List.length_range] at heq
      exact heq
    show p.users.map _ ++ List.replicate (p.threadIdx - p.users.length) _ = _
    rw [hlength, Nat.sub_self, List.replicate_zero, List.append_nil]
  cases a with
  | pass k =>
    cases hu : p.users[k]? with
    | none =>
      have hnone : p.gate.passers[k]? = none := by rw [hpassers, List.getElem?_map, hu]; rfl
      simp only [Gate.step, hnone] at hstep
      cases hstep
    | some u =>
      rw [← gate_stepUser h hu] at hstep
      obtain ⟨p', hp', rfl⟩ := Option.map_eq_some_iff.mp hstep
      refine ⟨.user k, p', ?_, rfl, ?_⟩
      · rw [Process.step, hu]
        exact hp'
      · obtain ⟨l, place, hpc, -⟩ := h.resumed u (List.mem_of_getElem? hu)
        simp only [Process.stepUser, hpc] at hp'
        rw [Process.Created, (stepHandling_frame hp').1]
        exact hcreated
  | wake k =>
    cases hu : p.users[k]? with
    | none =>
      have hnone : p.gate.passers[k]? = none := by rw [hpassers, List.getElem?_map, hu]; rfl
      simp only [Gate.step, hnone] at hstep
      cases hstep
    | some u =>
      rw [← gate_wake h hu] at hstep
      obtain ⟨p', hp', rfl⟩ := Option.map_eq_some_iff.mp hstep
      refine ⟨.wake k, p', hp', rfl, ?_⟩
      obtain ⟨v, -, hp'⟩ := Option.bind_eq_some_iff.mp hp'
      split at hp'
      · rw [← Option.some.inj hp']
        exact hcreated
      · cases hp'
  | openGate =>
    rw [← gate_stepTemplate h hcreated] at hstep
    obtain ⟨p', hp', rfl⟩ := Option.map_eq_some_iff.mp hstep
    exact ⟨.template, p', hp', rfl, created_stepTemplate h hcreated hp'⟩

theorem exists_run_of_gate {as : List Gate.Action} {g : Gate.State} (h : Forked recList p)
    (hcreated : p.Created) (hrun : runFrom Gate.step p.gate as = some g) :
    ∃ as' p', runFrom Process.step p as' = some p' ∧ p'.gate = g ∧ p'.Created := by
  induction as generalizing p with
  | nil => exact ⟨[], p, rfl, Option.some.inj hrun, hcreated⟩
  | cons a as ih =>
    obtain ⟨g₁, hstep, hrest⟩ := runFrom_cons_eq_some.mp hrun
    obtain ⟨a', p₁, hstep', rfl, hcreated₁⟩ := exists_step_of_gate h hcreated hstep
    obtain ⟨as', p', hrun', hgate, hcreated'⟩ := ih (h.step hstep') hcreated₁ hrest
    exact ⟨a' :: as', p', runFrom_cons_eq_some.mpr ⟨p₁, hstep', hrun'⟩, hgate, hcreated'⟩

/-- **All threads of a branch get to McMini**, if they take their steps. -/
theorem Forked.exists_awaits (h : Forked recList p) (hsound : Gate.Sound p.gate) :
    ∃ as p', runFrom Process.step p as = some p' ∧
      (p'.users.map (·.pthreadDescriptor)).Perm (liveThreads recList) ∧
      ∀ u ∈ p'.users, u.Awaits := by
  obtain ⟨as, p₁, hrun, hcreated⟩ := exists_created p
  have hinv : Forked recList p₁ ∧ Gate.Sound p₁.gate := by
    refine runFrom_invariant (P := fun p => Forked recList p ∧ Gate.Sound p.gate) ?_
      ⟨h, hsound⟩ hrun
    rintro p a p' ⟨h, hsound⟩ hstep
    exact ⟨h.step hstep, gate_invariant (fun _ _ _ => Gate.Sound.step) h hstep hsound⟩
  obtain ⟨gas, g, hgate, hthrough⟩ := hinv.2.exists_through
  obtain ⟨as', p', hrun', rfl, hcreated'⟩ := exists_run_of_gate hinv.1 hcreated hgate
  have hforked : Forked recList p' :=
    runFrom_invariant (fun _ _ _ h hstep => Forked.step h hstep) hinv.1 hrun'
  refine ⟨as ++ as', p', runFrom_append_eq_some.mpr ⟨p₁, hrun, hrun'⟩,
    hforked.users_perm hcreated', fun u hu => (awaits_iff hforked hu).mp (hthrough _ ?_)⟩
  exact List.mem_append_left _ (List.mem_map.mpr ⟨u, hu, rfl⟩)

/-! ### The branch which has been forked -/

variable {s s' s₁ s₂ s₃ : State} {templateLoop : Bool} {pid cpid : ℤ} {i : ℕ}

/-- A run of the branch is one of the system. -/
theorem run_branch {as : List ThreadAction} {b b' : Process} (hb : s.branches[i]? = some b)
    (hrun : runFrom Process.step b as = some b') :
    runFrom step s (as.map (.branch i)) = some { s with branches := s.branches.set i b' } := by
  have hlt : i < s.branches.length := (List.getElem?_eq_some_iff.mp hb).1
  induction as generalizing s b with
  | nil =>
    obtain rfl := Option.some.inj hrun
    obtain ⟨hi, rfl⟩ := List.getElem?_eq_some_iff.mp hb
    rw [List.set_getElem_self]
    rfl
  | cons a as ih =>
    obtain ⟨b₁, hstep, hrest⟩ := runFrom_cons_eq_some.mp hrun
    have hfirst : step (.branch i a) s = some { s with branches := s.branches.set i b₁ } := by
      simp only [step, hb, Option.bind_some, hstep, Option.map_some]
    have hnext := ih (s := { s with branches := s.branches.set i b₁ })
      (List.getElem?_set_self hlt) hrest (by simpa using hlt)
    rw [List.set_set] at hnext
    exact runFrom_cons_eq_some.mpr ⟨_, hfirst, hnext⟩

/-- What the steps of a gate keep holds of a branch as long as the system runs. -/
theorem branch_invariant {P : Gate.State → Prop} {as : List Action} {b : Process}
    (hP : ∀ g a g', P g → Gate.step a g = some g' → P g') (hforked : Forked recList b)
    (hb : s.branches[i]? = some b) (hp : P b.gate) (hrun : runFrom step s as = some s') :
    ∃ b', s'.branches[i]? = some b' ∧ Forked recList b' ∧ P b'.gate := by
  refine runFrom_invariant (P := fun s => ∃ b, s.branches[i]? = some b ∧ Forked recList b ∧
    P b.gate) ?_ ⟨b, hb, hforked, hp⟩ hrun
  rintro s a s' ⟨b, hb, hforked, hp⟩ hstep
  have hlt : i < s.branches.length := (List.getElem?_eq_some_iff.mp hb).1
  cases a with
  | restarted a =>
    obtain ⟨p', -, rfl⟩ := Option.map_eq_some_iff.mp hstep
    exact ⟨b, hb, hforked, hp⟩
  | branch j a =>
    obtain ⟨c, hc, hstep⟩ := Option.bind_eq_some_iff.mp hstep
    obtain ⟨c', hc', rfl⟩ := Option.map_eq_some_iff.mp hstep
    by_cases hji : j = i
    · subst hji
      obtain rfl := Option.some.inj (hb.symm.trans hc)
      exact ⟨c', List.getElem?_set_self hlt, hforked.step hc', gate_invariant hP hforked hc' hp⟩
    · exact ⟨b, (List.getElem?_set_ne hji).trans hb, hforked, hp⟩
  | fork cpid =>
    simp only [step] at hstep
    split_ifs at hstep
    rw [← Option.some.inj hstep]
    exact ⟨b, (List.getElem?_append_left hlt).trans hb, hforked, hp⟩
  | forkFailed =>
    simp only [step] at hstep
    split_ifs at hstep
    exact Option.some.inj hstep ▸ ⟨b, hb, hforked, hp⟩
  | death =>
    simp only [step] at hstep
    split_ifs at hstep
    exact Option.some.inj hstep ▸ ⟨b, hb, hforked, hp⟩

/-- The branch as it has been forked. -/
theorem fork_eq (hfork : step (.fork cpid) s₁ = some s₂) :
    s₁.restarted.template = .waitingForRequest ∧ cpid ≠ s₁.restarted.pid ∧
      s₂.branches[s₁.branches.length]? = some (s₁.restarted.forked cpid) := by
  simp only [step] at hfork
  split_ifs at hfork with hguard
  rw [← Option.some.inj hfork]
  refine ⟨hguard.1, hguard.2, ?_⟩
  rw [List.getElem?_append_right (Nat.le_refl _), Nat.sub_self]
  rfl

/-- The gate of a branch which has just been forked is closed, and nobody is there. -/
theorem gate_forked (h : Registered templateLoop p)
    (ht : p.template = .waitingForRequest) :
    (p.forked cpid).gate =
      { isOpen := false, mutex := p.templateThreadMut.map ownerAfterFork,
        passers := List.replicate p.threadIdx (.away 2), opener := .closed } := by
  have hmode : p.mode = .dmtcpRestartIntoTemplate := (h.awaited.template.of_serving (.inl ht)).2
  have hclosed : decide (p.mode = .targetBranchAfterRestart) = false := by
    rw [hmode]
    rfl
  show (⟨decide (p.mode = .targetBranchAfterRestart), _, _, _⟩ : Gate.State) = _
  rw [hclosed]
  rfl

theorem sound_gate_forked (h : Registered templateLoop p)
    (ht : p.template = .waitingForRequest) (hfree : p.templateThreadMut = none) :
    Gate.Sound (p.forked cpid).gate := by
  have haway : ∀ (k : ℕ) (q : Gate.Passer),
      (List.replicate p.threadIdx (Gate.Passer.away 2))[k]? = some q → q = .away 2 :=
    fun k q hq => List.eq_of_mem_replicate (List.mem_of_getElem? hq)
  rw [gate_forked h ht, hfree]
  refine ⟨fun k => ?_, by simp [Gate.Opener.HasMutex], by simp, by simp, fun k q hq hcase => ?_,
    fun hcase => by simp at hcase⟩
  · refine iff_of_false (by simp) ?_
    rintro ⟨q, hq, hhas⟩
    obtain rfl := haway k q hq
    simp [Gate.Passer.HasMutex] at hhas
  · obtain rfl := haway k q hq
    simp at hcase

theorem jammed_gate_forked (h : Registered templateLoop p)
    (ht : p.template = .waitingForRequest) (hheld : p.templateThreadMut ≠ none) :
    Gate.Jammed (p.forked cpid).gate := by
  obtain ⟨o, ho⟩ := Option.ne_none_iff_exists'.mp hheld
  obtain ⟨k, rfl⟩ := h.owner o ho
  rw [gate_forked h ht, ho]
  exact ⟨rfl, fun q hq => .inr ⟨2, List.eq_of_mem_replicate hq⟩, .inl rfl⟩

/-- **Whether a branch gets to McMini is decided by the fork.** If `template_thread_mut` is free in
that moment, all threads of the branch can get there from everywhere in every run. If one of the
template's threads holds it, none of the branch's ever does. -/
theorem awaits_of_fork {r : Recording} {pre post : List Action} (hstart : AtCheckpoint r)
    (horderly : HoldsAlong step Orderly (start pid templateLoop r) pre)
    (hpre : runFrom step (start pid templateLoop r) pre = some s₁)
    (hfork : step (.fork cpid) s₁ = some s₂) (hpost : runFrom step s₂ post = some s₃) :
    (s₁.restarted.templateThreadMut = none →
      ∃ (as : List ThreadAction) (s₄ : State) (b : Process),
        runFrom step s₃ (as.map (.branch s₁.branches.length)) = some s₄ ∧
        s₄.branches[s₁.branches.length]? = some b ∧
        (b.users.map (·.pthreadDescriptor)).Perm (liveThreads s₁.restarted.recList) ∧
        ∀ u ∈ b.users, u.Awaits) ∧
    (s₁.restarted.templateThreadMut ≠ none →
      ∃ b, s₃.branches[s₁.branches.length]? = some b ∧ ∀ u ∈ b.users, ¬ u.Awaits) := by
  have hregistered := (sound_of_run hstart horderly hpre).restarted
  obtain ⟨ht, hcpid, hb⟩ := fork_eq hfork
  have hforked := hregistered.forked ht hcpid
  constructor
  · intro hfree
    obtain ⟨b, hb₃, hforked₃, hsound⟩ := branch_invariant (fun _ _ _ => Gate.Sound.step) hforked hb
      (sound_gate_forked hregistered ht hfree) hpost
    obtain ⟨as, b', hrun, hperm, hawaits⟩ := hforked₃.exists_awaits hsound
    have hlt : s₁.branches.length < s₃.branches.length := (List.getElem?_eq_some_iff.mp hb₃).1
    exact ⟨as, _, b', run_branch hb₃ hrun, List.getElem?_set_self hlt, hperm, hawaits⟩
  · intro hheld
    obtain ⟨b, hb₃, hforked₃, hjammed⟩ := branch_invariant (fun _ _ _ => Gate.Jammed.step) hforked
      hb (jammed_gate_forked hregistered ht hheld) hpost
    refine ⟨b, hb₃, fun u hu hawaits => ?_⟩
    have hthrough := (awaits_iff hforked₃ hu).mpr hawaits
    have hmem : u.pc.passer ∈ b.gate.passers :=
      List.mem_append_left _ (List.mem_map.mpr ⟨u, hu, rfl⟩)
    exact hjammed.not_through hmem hthrough

/-- Two threads which are on their way to a wrapper. -/
private def bothAlive : Recording where
  recList := [.thread ⟨11, 0, .alive⟩, .thread ⟨12, 1, .alive⟩]
  tidNext := 2
  users := [⟨11, .outside⟩, ⟨12, .outside⟩]

private theorem atCheckpoint_bothAlive : AtCheckpoint bothAlive := by
  have hpc : ∀ u ∈ bothAlive.users, u.pc = .outside := by decide
  refine ⟨⟨.refl _, by decide, fun c v hv hnew => ?_⟩, fun u hu => ?_⟩
  · rw [hpc v (List.mem_of_getElem? hv)] at hnew
    cases hnew
  · rw [hpc u hu]
    trivial

/-- The first thread waits, the second takes so many steps before the template thread goes on. -/
private def untilRequest (steps : ℕ) : List Action :=
  List.replicate 10 (.restarted (.user 0)) ++ List.replicate steps (.restarted (.user 1)) ++
    List.replicate 5 (.restarted .template)

private def requested (steps : ℕ) : Option State :=
  runFrom step (start 5 true bothAlive) (untilRequest steps)

private theorem orderly_untilRequest {steps : ℕ} (h : steps = 9 ∨ steps = 10) :
    HoldsAlong step Orderly (start 5 true bothAlive) (untilRequest steps) := by
  rcases h with rfl | rfl
  · decide +kernel
  · decide +kernel

/-- The branch recreates both threads, which run until they wait or cannot go on. -/
private def inBranch : List Action :=
  List.replicate 3 (.branch 0 .template) ++ List.replicate 2 (.branch 0 (.user 0)) ++
    List.replicate 2 (.branch 0 (.user 1))

/-- What becomes of the branch when the second thread has taken so many steps before the fork. -/
private def branched (steps : ℕ) : Option (State × State × State) :=
  (requested steps).bind fun s₁ => (step (.fork 7) s₁).bind fun s₂ =>
    (runFrom step s₂ inBranch).map fun s₃ => (s₁, s₂, s₃)

private theorem branched_eq_some {steps : ℕ} {s₁ s₂ s₃ : State}
    (h : branched steps = some (s₁, s₂, s₃)) :
    runFrom step (start 5 true bothAlive) (untilRequest steps) = some s₁ ∧
      step (.fork 7) s₁ = some s₂ ∧ runFrom step s₂ inBranch = some s₃ := by
  obtain ⟨s, hrequested, h⟩ := Option.bind_eq_some_iff.mp h
  obtain ⟨s', hfork, h⟩ := Option.bind_eq_some_iff.mp h
  obtain ⟨s'', hrun, h⟩ := Option.map_eq_some_iff.mp h
  cases h
  exact ⟨hrequested, hfork, hrun⟩

private theorem isSome_branched {steps : ℕ} (h : steps = 9 ∨ steps = 10) :
    (branched steps).isSome = true := by
  rcases h with rfl | rfl
  · decide +kernel
  · decide +kernel

/-- If the second thread waits too, both get to McMini in the branch. If it tests the mode in the
moment of the fork, none does. -/
theorem awaits_of_fork_both :
    (∃ (s₁ s₂ s₃ s₄ : State) (as : List ThreadAction) (b : Process),
      branched 10 = some (s₁, s₂, s₃) ∧ runFrom step s₃ (as.map (.branch 0)) = some s₄ ∧
        s₄.branches[0]? = some b ∧ (b.users.map (·.pthreadDescriptor)).Perm [11, 12] ∧
        ∀ u ∈ b.users, u.Awaits) ∧
    ∃ (s₁ s₂ s₃ : State) (b : Process), branched 9 = some (s₁, s₂, s₃) ∧
      s₃.branches[0]? = some b ∧ b.users.map (·.pthreadDescriptor) = [11, 12] ∧
      ∀ u ∈ b.users, ¬ u.Awaits := by
  constructor
  · obtain ⟨⟨s₁, s₂, s₃⟩, hbranched⟩ := Option.isSome_iff_exists.mp (isSome_branched (.inr rfl))
    have hfork : (branched 10).map (fun s => (s.1.restarted.templateThreadMut, s.1.branches.length,
        liveThreads s.1.restarted.recList)) = some (none, 0, [11, 12]) := by decide +kernel
    rw [hbranched, Option.map_some, Option.some.injEq, Prod.mk.injEq, Prod.mk.injEq] at hfork
    obtain ⟨hfree, hlength, hlive⟩ := hfork
    obtain ⟨hpre, hstep, hpost⟩ := branched_eq_some hbranched
    have hgate := awaits_of_fork atCheckpoint_bothAlive (orderly_untilRequest (.inr rfl)) hpre hstep
      hpost
    obtain ⟨as, s₄, b, hrun, hb, hperm, hawaits⟩ := hgate.1 hfree
    rw [hlength] at hrun hb
    rw [hlive] at hperm
    exact ⟨s₁, s₂, s₃, s₄, as, b, hbranched, hrun, hb, hperm, hawaits⟩
  · obtain ⟨⟨s₁, s₂, s₃⟩, hbranched⟩ := Option.isSome_iff_exists.mp (isSome_branched (.inl rfl))
    have hfork : (branched 9).map (fun s => (s.1.restarted.templateThreadMut, s.1.branches.length,
        (s.2.2.branches[0]?).map fun b => b.users.map (·.pthreadDescriptor))) =
        some (some (.passer 1), 0, some [11, 12]) := by decide +kernel
    rw [hbranched, Option.map_some, Option.some.injEq, Prod.mk.injEq, Prod.mk.injEq] at hfork
    obtain ⟨hheld, hlength, husers⟩ := hfork
    obtain ⟨hpre, hstep, hpost⟩ := branched_eq_some hbranched
    have hgate := awaits_of_fork atCheckpoint_bothAlive (orderly_untilRequest (.inl rfl)) hpre hstep
      hpost
    obtain ⟨b, hb, hnot⟩ := hgate.2 (ne_of_eq_of_ne hheld (Option.some_ne_none _))
    rw [hlength] at hb
    rw [hb] at husers
    exact ⟨s₁, s₂, s₃, b, hbranched, hb, Option.some.inj husers, hnot⟩

end McMini.Restart
