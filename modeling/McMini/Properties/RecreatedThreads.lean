import McMini.Properties.RestartedThreads

/-!
# The threads of a branch

A branch creates anew the threads which have a `threadinfo`. When the template thread serves
requests, all recorded threads have one, with the context they have saved. So the threads of a
branch are the ones which are recorded as alive, each of them once, and no thread of the template
or of a branch ever fails (`recreated_of_run`).

What a branch has found in `threadInfos` does not change any more (`Forked`).
-/

namespace McMini.Restart

open Foundation TargetThread Transfer

variable {r : Recording} {p p' : Process} {mode : Mode} {k i : ℕ} {u : User} {pc : UserPc}
  {l : Locals} {place : Place} {templateLoop : Bool} {recList : List RecordedObject}

/-! ### A branch -/

/-- Where a thread of a branch can get to. -/
def Place.Resumed (mode : Mode) : Place → Prop
  | .saved | .switching | .locking | .testing | .waiting | .reacquiring => True
  | .unlocking | .awaiting => mode = .targetBranchAfterRestart
  | .allocated | .cleared | .described | .aborted => False

/-- The number of threads which have been created anew. -/
def TemplatePc.created (threads : ℕ) : TemplatePc → ℕ
  | .recreating i _ => i
  | _ => threads

def TemplatePc.InBranch (threads : ℕ) : TemplatePc → Prop
  | .recreating i maxThreadIdx => i ≤ threads ∧ maxThreadIdx = threads
  | .opening | .locking | .broadcasting | .unlocking | .finished => True
  | _ => False

/-- The context is one which a thread of a template has saved. -/
structure FromTemplate (pid : ℤ) (l : Locals) : Prop where
  modeOnEntry : l.modeOnEntry = .dmtcpRestartIntoTemplate
  origPid : l.origPid ≠ pid

/-- The descriptors in `threadInfos`, from the first. -/
def Process.descriptors (p : Process) (n : ℕ) : List Addr :=
  (List.range n).map fun i => (p.threadInfos i).pthreadDescriptor

theorem descriptors_succ {n : ℕ} :
    p.descriptors (n + 1) = p.descriptors n ++ [(p.threadInfos n).pthreadDescriptor] := by
  rw [Process.descriptors, List.range_succ, List.map_append]
  rfl

/-- **A branch.** -/
structure Forked (recList : List RecordedObject) (p : Process) : Prop where
  records : p.recList = recList
  perm : (p.descriptors p.threadIdx).Perm (liveThreads recList)
  infos : ∀ i < p.threadIdx, (p.threadInfos i).valid = true ∧
    ∃ l, (p.threadInfos i).context = some l ∧ FromTemplate p.pid l
  users : p.users.map (·.pthreadDescriptor) = p.descriptors (p.template.created p.threadIdx)
  resumed : ∀ u ∈ p.users, ∃ l place, u.pc = .handling l place ∧ FromTemplate p.pid l ∧
    place.Resumed p.mode
  template : p.template.InBranch p.threadIdx

/-- A thread of a branch moves on. -/
theorem Forked.move (h : Forked recList p) (hu : p.users[k]? = some u) (place : Place)
    (hfrom : FromTemplate p.pid l) (hplace : place.Resumed p.mode) (m : Option Gate.Owner) :
    Forked recList { p.goTo k u (.handling l place) with templateThreadMut := m } := by
  refine ⟨h.records, h.perm, h.infos, ?_, fun u' hu' => ?_, h.template⟩
  · have hmap : (p.users.set k { u with pc := .handling l place }).map (·.pthreadDescriptor) =
        p.users.map (·.pthreadDescriptor) := map_set_of_eq hu rfl
    exact hmap.trans h.users
  · rcases List.mem_or_eq_of_mem_set hu' with hmem | rfl
    · exact h.resumed u' hmem
    · exact ⟨l, place, rfl, hfrom, hplace⟩

theorem Forked.stepUser (h : Forked recList p) (hu : p.users[k]? = some u)
    (hstep : p.stepUser k u = some p') : Forked recList p' := by
  obtain ⟨l, place, hpc, hfrom, hplace⟩ := h.resumed u (List.mem_of_getElem? hu)
  simp only [Process.stepUser, hpc] at hstep
  have hlock : p.lockAndTest k u l = some p' → Forked recList p' := by
    intro hlock
    unfold Process.lockAndTest at hlock
    split_ifs at hlock
    exact Option.some.inj hlock ▸ h.move hu .testing hfrom trivial _
  cases place with
  | allocated | cleared | described | aborted => exact hplace.elim
  | saved =>
    simp only [Process.stepHandling, if_neg hfrom.origPid.symm] at hstep
    exact Option.some.inj hstep ▸ h.move hu .switching hfrom trivial _
  | switching =>
    simp only [Process.stepHandling, hfrom.modeOnEntry] at hstep
    exact Option.some.inj hstep ▸ h.move hu .locking hfrom trivial _
  | locking => exact hlock hstep
  | reacquiring => exact hlock hstep
  | testing =>
    simp only [Process.stepHandling] at hstep
    split_ifs at hstep with hmode
    · exact Option.some.inj hstep ▸ h.move hu .unlocking hfrom hmode _
    · exact Option.some.inj hstep ▸ h.move hu .waiting hfrom trivial _
  | unlocking => exact Option.some.inj hstep ▸ h.move hu .awaiting hfrom hplace _
  | waiting | awaiting => cases hstep

/-- The place of a thread which is woken. -/
theorem resumed_woken (h : ∃ l place, u.pc = .handling l place ∧ FromTemplate p.pid l ∧
    place.Resumed mode) :
    ∃ l place, u.woken.pc = .handling l place ∧ FromTemplate p.pid l ∧ place.Resumed mode := by
  obtain ⟨l, place, hpc, hfrom, hplace⟩ := h
  by_cases hwaiting : place = .waiting
  · subst hwaiting
    exact ⟨l, .reacquiring, by rw [User.woken, hpc]; rfl, hfrom, trivial⟩
  · refine ⟨l, place, ?_, hfrom, hplace⟩
    cases place <;> first | exact absurd rfl hwaiting | (rw [User.woken, hpc]; rfl)

theorem Forked.stepTemplate (h : Forked recList p) (hstep : p.stepTemplate = some p') :
    Forked recList p' := by
  have htemplate := h.template
  have husers := h.users
  cases ht : p.template with
  | sleeping | barrier | publishing | waitingForRequest | waitingForDeath =>
    rw [ht] at htemplate
    exact htemplate.elim
  | finished =>
    simp only [Process.stepTemplate, ht] at hstep
    cases hstep
  | recreating i n =>
    rw [ht] at htemplate husers
    obtain ⟨hle, rfl⟩ := htemplate
    simp only [Process.stepTemplate, ht] at hstep
    split_ifs at hstep with hlt
    · rw [← Option.some.inj hstep]
      -- the next `threadinfo` becomes a thread which begins where it has been saved
      obtain ⟨hvalid, l, hl, hfrom⟩ := h.infos i hlt
      refine ⟨h.records, h.perm, h.infos, ?_, fun u hu => ?_, ⟨hlt, rfl⟩⟩
      · show (p.users ++ [(p.threadInfos i).recreate]).map _ = p.descriptors (i + 1)
        rw [List.map_append, husers, descriptors_succ]
        rfl
      · rcases List.mem_append.mp hu with hu | hu
        · exact h.resumed u hu
        · obtain rfl := List.mem_singleton.mp hu
          exact ⟨l, .saved, by simp only [ThreadInfo.recreate, hl], hfrom, trivial⟩
    · rw [← Option.some.inj hstep]
      -- all of them have been used
      obtain rfl : i = p.threadIdx := by omega
      exact ⟨h.records, h.perm, h.infos, husers, h.resumed, trivial⟩
  | opening =>
    rw [ht] at husers
    simp only [Process.stepTemplate, ht] at hstep
    rw [← Option.some.inj hstep]
    refine ⟨h.records, h.perm, h.infos, husers, fun u hu => ?_, trivial⟩
    obtain ⟨l, place, hpc, hfrom, hplace⟩ := h.resumed u hu
    refine ⟨l, place, hpc, hfrom, ?_⟩
    -- no thread has come past the flag before it is set
    cases place <;> first | exact hplace.elim | trivial
  | locking =>
    rw [ht] at husers
    simp only [Process.stepTemplate, ht] at hstep
    split_ifs at hstep
    rw [← Option.some.inj hstep]
    exact ⟨h.records, h.perm, h.infos, husers, h.resumed, trivial⟩
  | broadcasting =>
    rw [ht] at husers
    simp only [Process.stepTemplate, ht] at hstep
    rw [← Option.some.inj hstep]
    refine ⟨h.records, h.perm, h.infos, ?_, fun u hu => ?_, trivial⟩
    · show (p.users.map (·.woken)).map (·.pthreadDescriptor) = _
      rw [List.map_map]
      exact husers
    · obtain ⟨v, hv, rfl⟩ := List.mem_map.mp hu
      exact resumed_woken (h.resumed v hv)
  | unlocking =>
    rw [ht] at husers
    simp only [Process.stepTemplate, ht] at hstep
    rw [← Option.some.inj hstep]
    exact ⟨h.records, h.perm, h.infos, husers, h.resumed, trivial⟩

/-- **A branch stays as described.** -/
theorem Forked.step {a : ThreadAction} (h : Forked recList p) (hstep : p.step a = some p') :
    Forked recList p' := by
  cases a with
  | template => exact h.stepTemplate hstep
  | user k =>
    obtain ⟨u, hu, hstep⟩ := Option.bind_eq_some_iff.mp hstep
    exact h.stepUser hu hstep
  | create k t =>
    obtain ⟨u, hu, hstep⟩ := Option.bind_eq_some_iff.mp hstep
    obtain ⟨l, place, hpc, -⟩ := h.resumed u (List.mem_of_getElem? hu)
    rw [hpc] at hstep
    cases hstep
  | object k location state =>
    obtain ⟨u, hu, hstep⟩ := Option.bind_eq_some_iff.mp hstep
    obtain ⟨l, place, hpc, -⟩ := h.resumed u (List.mem_of_getElem? hu)
    rw [hpc] at hstep
    cases hstep
  | wake k =>
    obtain ⟨u, hu, hstep⟩ := Option.bind_eq_some_iff.mp hstep
    obtain ⟨l, place, hpc, hfrom, -⟩ := h.resumed u (List.mem_of_getElem? hu)
    split at hstep
    · next l' hpc' =>
      rw [hpc] at hpc'
      cases hpc'
      exact Option.some.inj hstep ▸ h.move hu .reacquiring hfrom trivial _
    · cases hstep

/-! ### All processes -/

/-- All posts of `dmtcp_restart_sem` have been waited for. -/
def TemplatePc.PastBarrier : TemplatePc → Prop
  | .sleeping | .barrier _ => False
  | _ => True

/-- **Beyond the barrier every thread has posted or ended.** None is new, and none has left without
its record being marked. -/
theorem Registered.settled (h : Registered templateLoop p) (hpast : p.template.PastBarrier)
    (hu : p.users[k]? = some u) :
    u.pc = .ended ∨ ∃ l place, u.pc = .handling l place ∧ place.notified = true := by
  have hnotified : ∀ v ∈ p.users, v.recorded.isSome = true → v.pc.notified = true := by
    intro v hv hrecorded
    by_contra hnot
    have hpos := h.left_pos hv hrecorded (Bool.not_eq_true _ ▸ hnot)
    cases ht : p.template <;> rw [ht] at hpast hpos <;>
      first | exact hpast | exact Nat.lt_irrefl 0 hpos
  have hold : u.pc.isNew = false := by
    by_contra hnew
    obtain ⟨j, v, hv, hpc⟩ := h.listed.creator k u hu (Bool.not_eq_false _ ▸ hnew)
    have hfalse := hnotified v (List.mem_of_getElem? hv) (by rw [User.recorded, hpc]; rfl)
    rw [hpc] at hfalse
    cases hfalse
  have hmem := List.mem_of_getElem? hu
  have hrecorded := hnotified u hmem
  cases h.numbered.proper u hmem with
  | handling hpc =>
    refine .inr ⟨_, _, hpc, ?_⟩
    rw [User.recorded, hpc] at hrecorded
    exact hrecorded rfl
  | entering hpc =>
    rcases hpc with hpc | hpc <;> rw [User.recorded, hpc] at hrecorded <;> cases hrecorded rfl
  | inRecording hin =>
    cases hpc : u.pc with
    | ended => exact .inl rfl
    | starting | registered | recording =>
      rw [hpc] at hold
      cases hold
    | ending | leaving | left | creating | outside =>
      have hfalse := hrecorded (by rw [User.recorded, hpc]; rfl)
      rw [hpc] at hfalse
      cases hfalse
    | elsewhere | entering | entered | handling | overflowed | crashed | assertionFailed =>
      rw [hpc] at hin
      exact hin.elim

/-- So every recorded thread has saved its context. -/
theorem Registered.saved (h : Registered templateLoop p) (hpast : p.template.PastBarrier)
    (hu : u ∈ p.users) (hrecorded : u.recorded.isSome = true) :
    ∃ l place, u.pc = .handling l place ∧ l.modeOnEntry = restartMode templateLoop ∧
      l.origPid = p.pid ∧ p.threadInfos l.origThreadIdx = ⟨true, u.pthreadDescriptor, some l⟩ := by
  obtain ⟨k, hk⟩ := List.mem_iff_getElem?.mp hu
  rcases h.settled hpast hk with hended | ⟨l, place, hpc, hnotified⟩
  · rw [User.recorded, hended] at hrecorded
    cases hrecorded
  · obtain ⟨hmode, hpid, hstored, -⟩ := h.numbered.handling hu hpc
    refine ⟨l, place, hpc, hmode, hpid, ?_⟩
    cases place <;> first | exact hstored | cases hnotified

/-- **A fork yields such a branch.** -/
theorem Registered.forked (h : Registered templateLoop p) {pid : ℤ}
    (htemplate : p.template = .waitingForRequest) (hpid : pid ≠ p.pid) :
    Forked p.recList (p.forked pid) := by
  obtain ⟨rfl, -⟩ := h.awaited.template.of_serving (.inl htemplate)
  have hpast : p.template.PastBarrier := by rw [htemplate]; trivial
  refine ⟨rfl, ?_, fun i hi => ?_, rfl, fun u hu => ?_, ⟨Nat.zero_le _, rfl⟩⟩
  · refine (h.numbered.drawn.filterMap_perm fun u hu => ?_).trans h.listed.recorded
    cases hrecorded : u.recorded with
    | none =>
      have hnone : u.pc.threadInfo = none := by
        by_contra hsome
        have hisSome := isSome_recorded_of_threadInfo (Option.isSome_iff_ne_none.mpr hsome)
        rw [hrecorded] at hisSome
        cases hisSome
      rw [hnone]
      rfl
    | some t =>
      obtain ⟨l, place, hpc, -, -, hinfo⟩ := h.saved hpast hu (by rw [hrecorded]; rfl)
      rw [User.recorded, hpc] at hrecorded
      rw [hpc, ← hrecorded]
      exact congrArg some (congrArg ThreadInfo.pthreadDescriptor hinfo).symm
  · obtain ⟨u, hu, hticket⟩ := h.numbered.drawn.exists_of_lt hi
    have hrecorded := isSome_recorded_of_threadInfo (by rw [hticket]; rfl)
    obtain ⟨l, place, hpc, hmode, horig, hinfo⟩ := h.saved hpast hu hrecorded
    obtain rfl : l.origThreadIdx = i := by
      rw [hpc] at hticket
      exact Option.some.inj hticket
    refine ⟨congrArg ThreadInfo.valid hinfo, l, congrArg ThreadInfo.context hinfo, hmode, ?_⟩
    rw [horig]
    exact hpid.symm
  · cases hu

/-- What a thread with a `threadinfo` does not change. -/
theorem stepHandling_frame (hstep : p.stepHandling k u l place = some p') :
    p'.template = p.template ∧ ∃ pc : UserPc, (pc = .overflowed ∨ ∃ place, pc = .handling l place) ∧
      p'.toRecording = p.toRecording.goTo k u pc := by
  have hlock : p.lockAndTest k u l = some p' → p'.template = p.template ∧
      ∃ pc : UserPc, (pc = .overflowed ∨ ∃ place, pc = .handling l place) ∧
        p'.toRecording = p.toRecording.goTo k u pc := by
    intro hlock
    unfold Process.lockAndTest at hlock
    split_ifs at hlock
    exact Option.some.inj hlock ▸ ⟨rfl, _, .inr ⟨_, rfl⟩, rfl⟩
  cases place with
  | locking => exact hlock hstep
  | reacquiring => exact hlock hstep
  | allocated =>
    simp only [Process.stepHandling] at hstep
    split_ifs at hstep
    · exact Option.some.inj hstep ▸ ⟨rfl, _, .inr ⟨_, rfl⟩, rfl⟩
    · exact Option.some.inj hstep ▸ ⟨rfl, _, .inl rfl, rfl⟩
  | switching =>
    simp only [Process.stepHandling] at hstep
    split at hstep <;> exact Option.some.inj hstep ▸ ⟨rfl, _, .inr ⟨_, rfl⟩, rfl⟩
  | saved | testing =>
    simp only [Process.stepHandling] at hstep
    split_ifs at hstep <;> exact Option.some.inj hstep ▸ ⟨rfl, _, .inr ⟨_, rfl⟩, rfl⟩
  | cleared | described | unlocking =>
    exact Option.some.inj hstep ▸ ⟨rfl, _, .inr ⟨_, rfl⟩, rfl⟩
  | waiting | awaiting | aborted => cases hstep

/-- Beyond the barrier nothing is recorded any more. -/
theorem Registered.frame {a : ThreadAction} (h : Registered templateLoop p)
    (hpast : p.template.PastBarrier) (hstep : p.step a = some p') :
    p'.template.PastBarrier ∧ p'.recList = p.recList := by
  have hnotOutside : ∀ {k : ℕ} {u : User}, p.users[k]? = some u → u.pc ≠ .outside := by
    intro k u hu hpc
    rcases h.settled hpast hu with hpc' | ⟨l, place, hpc', -⟩ <;> rw [hpc] at hpc' <;> cases hpc'
  cases a with
  | user k =>
    obtain ⟨u, hu, hstep⟩ := Option.bind_eq_some_iff.mp hstep
    rcases h.settled hpast hu with hpc | ⟨l, place, hpc, -⟩ <;>
      simp only [Process.stepUser, hpc] at hstep
    · cases hstep
    · obtain ⟨htemplate, pc, -, hrecording⟩ := stepHandling_frame hstep
      exact ⟨htemplate ▸ hpast, by rw [hrecording]; rfl⟩
  | create k t =>
    obtain ⟨u, hu, hstep⟩ := Option.bind_eq_some_iff.mp hstep
    rw [if_neg (hnotOutside hu)] at hstep
    cases hstep
  | object k location state =>
    obtain ⟨u, hu, hstep⟩ := Option.bind_eq_some_iff.mp hstep
    rw [if_neg (hnotOutside hu)] at hstep
    cases hstep
  | wake k =>
    obtain ⟨u, hu, hstep⟩ := Option.bind_eq_some_iff.mp hstep
    split at hstep
    · exact Option.some.inj hstep ▸ ⟨hpast, rfl⟩
    · cases hstep
  | template =>
    cases ht : p.template with
    | sleeping | barrier =>
      rw [ht] at hpast
      exact hpast.elim
    | publishing | recreating | locking =>
      simp only [Process.step, Process.stepTemplate, ht] at hstep
      split_ifs at hstep <;> exact Option.some.inj hstep ▸ ⟨trivial, rfl⟩
    | opening | broadcasting | unlocking =>
      simp only [Process.step, Process.stepTemplate, ht] at hstep
      exact Option.some.inj hstep ▸ ⟨trivial, rfl⟩
    | waitingForRequest | waitingForDeath | finished =>
      simp only [Process.step, Process.stepTemplate, ht] at hstep
      cases hstep

/-- The restarted process and its branches. -/
structure Sound (templateLoop : Bool) (s : State) : Prop where
  restarted : Registered templateLoop s.restarted
  branches : ∀ b ∈ s.branches, Forked s.restarted.recList b
  past : s.branches ≠ [] → s.restarted.template.PastBarrier

theorem Sound.step {s s' : State} {a : Action} (h : Sound templateLoop s)
    (horderly : Orderly s a) (hstep : Restart.step a s = some s') : Sound templateLoop s' := by
  cases a with
  | restarted a =>
    obtain ⟨p', hp', rfl⟩ := Option.map_eq_some_iff.mp hstep
    refine ⟨h.restarted.step horderly hp', fun b hb => ?_, fun hne => ?_⟩
    · have hpast := h.past (List.ne_nil_of_mem hb)
      exact (h.restarted.frame hpast hp').2 ▸ h.branches b hb
    · exact (h.restarted.frame (h.past hne) hp').1
  | branch i a =>
    obtain ⟨b, hb, hstep⟩ := Option.bind_eq_some_iff.mp hstep
    obtain ⟨b', hb', rfl⟩ := Option.map_eq_some_iff.mp hstep
    refine ⟨h.restarted, fun c hc => ?_, fun _ => h.past fun hnil => ?_⟩
    · rcases List.mem_or_eq_of_mem_set hc with hmem | rfl
      · exact h.branches c hmem
      · exact (h.branches b (List.mem_of_getElem? hb)).step hb'
    · rw [hnil] at hb
      cases hb
  | fork pid =>
    simp only [Restart.step] at hstep
    split_ifs at hstep with hguard
    obtain ⟨htemplate, hpid⟩ := hguard
    rw [← Option.some.inj hstep]
    refine ⟨h.restarted.serve (.inl htemplate) (.inr rfl), fun b hb => ?_, fun _ => trivial⟩
    rcases List.mem_append.mp hb with hb | hb
    · exact h.branches b hb
    · obtain rfl := List.mem_singleton.mp hb
      exact h.restarted.forked htemplate hpid
  | forkFailed =>
    simp only [Restart.step] at hstep
    split_ifs at hstep with htemplate
    exact Option.some.inj hstep ▸
      ⟨h.restarted.serve (.inl htemplate) (.inr rfl), h.branches, fun _ => trivial⟩
  | death =>
    simp only [Restart.step] at hstep
    split_ifs at hstep with htemplate
    exact Option.some.inj hstep ▸
      ⟨h.restarted.serve (.inr htemplate) (.inl rfl), h.branches, fun _ => trivial⟩

/-- The threads and their records when the checkpoint was taken. -/
structure AtCheckpoint (r : Recording) : Prop where
  listed : Listed r
  pc : ∀ u ∈ r.users, u.pc.InRecording

theorem sound_start {pid : ℤ} (h : AtCheckpoint r) :
    Sound templateLoop (start pid templateLoop r) := by
  have hcount : r.users.countP (·.pc.notified) = 0 := by
    refine List.countP_eq_zero.mpr fun u hu => ?_
    rw [(h.pc u hu).notified]
    simp
  have hnumbered : Numbered (restartMode templateLoop) (start pid templateLoop r).restarted :=
    ⟨.nil fun u hu => (h.pc u hu).threadInfo, fun u hu => .inRecording (h.pc u hu)⟩
  refine ⟨⟨h.listed, hnumbered, ⟨?_, .before (.inl rfl) rfl⟩, ?_⟩, ?_, ?_⟩
  · show r.users.countP (·.pc.notified) + _ = _
    rw [hcount]
    rfl
  · rintro o ⟨⟩
  · rintro b ⟨⟩
  · exact fun hne => absurd rfl hne

theorem sound_of_run {pid : ℤ} {actions : List Action} {s : State} (hstart : AtCheckpoint r)
    (horderly : HoldsAlong step Orderly (start pid templateLoop r) actions)
    (hrun : runFrom step (start pid templateLoop r) actions = some s) : Sound templateLoop s :=
  runFrom_invariant_along (fun _ _ _ h hQ hstep => Sound.step h hQ hstep) (sound_start hstart)
    horderly hrun

/-- The thread does what it should not: it goes on as if nothing had been restarted, writes beyond
the end of `threadInfos`, has no context or aborts. -/
def UserPc.Fails (pc : UserPc) : Prop :=
  pc = .elsewhere ∨ pc = .overflowed ∨ pc = .crashed ∨ pc = .assertionFailed ∨
    ∃ l, pc = .handling l .aborted

/-- The thread waits for McMini. -/
def User.Awaits (u : User) : Prop := ∃ l, u.pc = .handling l .awaiting

theorem Proper.not_fails {pid : ℤ} {infos : ℕ → ThreadInfo} (h : Proper mode pid infos u) :
    ¬ u.pc.Fails := by
  rintro hfails
  cases h with
  | inRecording hin =>
    rcases hfails with hpc | hpc | hpc | hpc | ⟨l, hpc⟩ <;> rw [hpc] at hin <;> exact hin
  | entering hpc => rcases hpc with hpc | hpc <;> simp [UserPc.Fails, hpc] at hfails
  | handling hpc _ _ _ hplace =>
    obtain rfl := by simpa [UserPc.Fails, hpc] using hfails
    exact hplace

theorem Forked.not_fails (h : Forked recList p) (hu : u ∈ p.users) : ¬ u.pc.Fails := by
  rintro hfails
  obtain ⟨l, place, hpc, -, hplace⟩ := h.resumed u hu
  obtain rfl := by simpa [UserPc.Fails, hpc] using hfails
  exact hplace

/-- `mc_pthread_is_recreated_thread` is right in a branch. -/
theorem Forked.isRecreatedThread_iff (h : Forked recList p) {t : Addr} :
    p.isRecreatedThread t = true ↔ t ∈ liveThreads recList := by
  rw [← h.perm.mem_iff, Process.isRecreatedThread, Process.descriptors, List.any_eq_true,
    List.mem_map]
  constructor
  · rintro ⟨i, hi, hsame⟩
    obtain ⟨-, hsame⟩ := Bool.and_eq_true_iff.mp hsame
    exact ⟨i, hi, of_decide_eq_true hsame⟩
  · rintro ⟨i, hi, hsame⟩
    have hvalid := (h.infos i (List.mem_range.mp hi)).1
    exact ⟨i, hi, by simp [hvalid, hsame]⟩

/-- The threads which have been created anew are the first ones. -/
theorem Forked.subperm (h : Forked recList p) :
    (p.users.map (·.pthreadDescriptor)).Subperm (liveThreads recList) := by
  have hle : p.template.created p.threadIdx ≤ p.threadIdx := by
    have htemplate := h.template
    cases hpc : p.template <;> rw [hpc] at htemplate <;>
      first | exact htemplate.1 | exact Nat.le_refl _
  have hsub : (p.descriptors (p.template.created p.threadIdx)).Sublist
      (p.descriptors p.threadIdx) := (List.range_sublist.mpr hle).map _
  rw [h.users]
  exact hsub.subperm.trans h.perm.subperm

theorem Forked.users_perm (h : Forked recList p) (hdone : ∀ i n, p.template ≠ .recreating i n) :
    (p.users.map (·.pthreadDescriptor)).Perm (liveThreads recList) := by
  have hcreated : p.template.created p.threadIdx = p.threadIdx := by
    cases hpc : p.template <;> first | exact absurd hpc (hdone _ _) | rfl
  rw [h.users, hcreated]
  exact h.perm

/-- **The threads of a branch are the recorded ones**, and no thread ever fails, as long as what the
threads do is orderly. In a branch each thread which is recorded as alive is created once, and
`mc_pthread_is_recreated_thread` knows just these. Those of the template never come under the
control of McMini, and those of a branch not before its mode has been set. -/
theorem recreated_of_run {pid : ℤ} {actions : List Action} {s : State} (hstart : AtCheckpoint r)
    (horderly : HoldsAlong step Orderly (start pid templateLoop r) actions)
    (hrun : runFrom step (start pid templateLoop r) actions = some s) :
    (∀ p, p = s.restarted ∨ p ∈ s.branches → ∀ u ∈ p.users, ¬ u.pc.Fails) ∧
    (templateLoop = true → ∀ u ∈ s.restarted.users, ¬ u.Awaits) ∧
    ∀ b ∈ s.branches,
      (b.users.map (·.pthreadDescriptor)).Subperm (liveThreads s.restarted.recList) ∧
      ((∀ i n, b.template ≠ .recreating i n) →
        (b.users.map (·.pthreadDescriptor)).Perm (liveThreads s.restarted.recList)) ∧
      (∀ t, b.isRecreatedThread t = true ↔ t ∈ liveThreads s.restarted.recList) ∧
      ∀ u ∈ b.users, u.Awaits → b.mode = .targetBranchAfterRestart := by
  have hsound := sound_of_run hstart horderly hrun
  refine ⟨?_, ?_, fun b hb => ?_⟩
  · rintro p (rfl | hp) u hu
    · exact (hsound.restarted.numbered.proper u hu).not_fails
    · exact (hsound.branches p hp).not_fails hu
  · rintro rfl u hu ⟨l, hpc⟩
    obtain ⟨-, -, -, hplace⟩ := hsound.restarted.numbered.handling hu hpc
    cases hplace
  · have hforked := hsound.branches b hb
    refine ⟨hforked.subperm, hforked.users_perm, fun t => hforked.isRecreatedThread_iff, ?_⟩
    rintro u hu ⟨l, hpc⟩
    obtain ⟨l', place, hpc', -, hplace⟩ := hforked.resumed u hu
    rw [hpc] at hpc'
    cases hpc'
    exact hplace

/-- The first thread is creating a third one. -/
private def creatingThird : Recording where
  recList := [.thread ⟨11, 0, .alive⟩, .thread ⟨12, 1, .exited⟩, .thread ⟨13, 2, .alive⟩]
  tidNext := 4
  users := [⟨11, .creating 2⟩, ⟨13, .outside⟩, ⟨14, .recording 3⟩]

private theorem atCheckpoint_creatingThird : AtCheckpoint creatingThird := by
  refine ⟨⟨.refl _, by decide, fun c v hv hnew => ?_⟩, fun u hu => ?_⟩
  · refine ⟨0, ⟨11, .creating 2⟩, rfl, ?_⟩
    match c with
    | 0 | 1 =>
      obtain rfl := Option.some.inj hv
      cases hnew
    | 2 => rfl
    | c + 3 => cases hv
  · simp only [creatingThird, List.mem_cons, List.not_mem_nil, or_false] at hu
    rcases hu with rfl | rfl | rfl <;> trivial

/-- The third thread is recorded, and the last one in the list is the first at its index. -/
private def forkingOnce : List Action :=
  List.replicate 9 (.restarted (.user 2)) ++ List.replicate 8 (.restarted (.user 1)) ++
    List.replicate 9 (.restarted (.user 0)) ++ List.replicate 6 (.restarted .template) ++
    [.fork 7, .branch 0 .template, .branch 0 .template, .branch 0 .template]

private theorem orderly_forkingOnce :
    HoldsAlong step Orderly (start 5 true creatingThird) forkingOnce := by
  decide +kernel

private theorem isSome_forkingOnce :
    (runFrom step (start 5 true creatingThird) forkingOnce).isSome = true := by
  decide +kernel

private def forkedOnce : State :=
  (runFrom step (start 5 true creatingThird) forkingOnce).get isSome_forkingOnce

private theorem branches_forkedOnce : forkedOnce.branches.length = 1 := by decide +kernel

private theorem mem_liveThreads_forkedOnce : 14 ∈ liveThreads forkedOnce.restarted.recList := by
  decide +kernel

theorem recreated_of_run_creating : ∃ b ∈ forkedOnce.branches, b.isRecreatedThread 14 = true := by
  obtain ⟨b, hbranches⟩ := List.length_eq_one_iff.mp branches_forkedOnce
  have hb : b ∈ forkedOnce.branches := by simp [hbranches]
  obtain ⟨-, -, h⟩ := recreated_of_run atCheckpoint_creatingThird orderly_forkingOnce
    (Option.some_get isSome_forkingOnce).symm
  exact ⟨b, hb, ((h b hb).2.2.1 14).mpr mem_liveThreads_forkedOnce⟩

/-- The third thread records itself too late, and the second one finds the mode changed. -/
example :
    (runFrom step (start 5 false creatingThird)
      (.restarted .template :: List.replicate 9 (.restarted (.user 2)) ++
        List.replicate 9 (.restarted (.user 0)) ++ List.replicate 4 (.restarted .template) ++
        [.restarted (.user 1)])).any
      (fun s => s.restarted.users.any (·.pc = .elsewhere)) = true := by
  decide +kernel

end McMini.Restart
