import McMini.RealWorld.Template

/-!
# One branch at a time

The requests, the branches and their deaths stay in step (`State.Orderly`): one request is
under way while McMini waits for its answer, and the template waits for the death of the branch
it has forked last before it takes another request. So a new branch is forked only when all the
others have been reaped, a call which returns has got the pid of the branch forked for its
request, and the permits and reports in the mailboxes are those of this branch
(`State.Separated`).

A failed `fork` is answered with `TEMPLATE_FORK_FAILED`, on which `make_new_process` throws. The
loop of the template process however overwrites this with the `-1` of `fork`, and
`make_new_process` returns a handle for no process (`separated_of_run`).
-/

namespace McMini.Template

open Foundation

variable {s s' : State} {a : Action} {b : Branch} {l : List Branch} {i : ℕ}
  {actions : List Action}

/-! ### Requests and deaths -/

@[grind]
def BranchStatus.unreaped (status : BranchStatus) : ℕ := if status = .reaped then 0 else 1

@[grind]
def McMiniThread.waiting (thread : McMiniThread) : ℕ := if thread = .waitingForFork then 1 else 0

/-- The process which the coordinator has a handle of. -/
@[grind]
def McMiniThread.handle : McMiniThread → Option ℤ
  | .holding pid | .executing pid _ => some pid
  | _ => none

@[grind]
def TemplateThread.serving (thread : TemplateThread) : ℕ :=
  if thread = .forking ∨ thread = .posting then 1 else 0

@[grind]
def TemplateThread.awaiting (thread : TemplateThread) : ℕ :=
  if thread = .posting ∨ thread = .waitingForDeath then 1 else 0

/-- The handler has been entered. -/
@[grind]
def handling (handler : ExecuteRunner.TemplateHandler) : ℕ := if handler = .idle then 0 else 1

/-- The status of the branch which was forked last. -/
@[grind]
def latest : List Branch → BranchStatus
  | [] => .reaped
  | b :: _ => b.status

@[grind →]
theorem latest_of_head? (h : l.head? = some b) : latest l = b.status := by
  cases l with
  | nil => simp at h
  | cons b' old =>
    obtain rfl := Option.some.inj h
    rfl

/-- The last `fork` has failed, as far as `cpid` tells. -/
@[grind]
def State.failed (s : State) : ℕ := if s.cpid = templateForkFailed then 1 else 0

structure State.Orderly (s : State) : Prop where
  former : ∀ b ∈ s.branches.tail, b.status = .reaped
  numbers : ∀ b ∈ s.branches, b.request ≤ s.served ∧
    (s.template = .forking → b.request < s.served)
  served : s.served + s.libmcminiSem = s.requests
  /-- A request which is under way has been posted, is served or has been answered. -/
  request : s.libmcminiSem + s.template.serving + s.mcminiProcessSem = s.mcmini.waiting
  /-- While the template waits for a death, the branch is there, or its death is. -/
  death : (latest s.branches).unreaped + handling s.templateHandler + s.sigchldSem + s.failed =
    s.template.awaiting
  pending : s.templatePending = true ↔ latest s.branches = .zombie
  signal : s.sigchld = 0
  handler : s.templateHandler ≠ .forwarding true
  live : ∀ b, s.branches.head? = some b → b.status = .live →
    b.request = s.requests ∧ b.pid = s.cpid ∧ 0 < b.pid ∧
      (s.mcmini.handle = some b.pid ∨ s.mcmini = .waitingForFork ∨ s.mcmini = .woken)
  handle : ∀ pid, s.mcmini.handle = some pid → latest s.branches = .live
  answered : s.mcmini = .woken ∨
      (s.mcmini = .waitingForFork ∧ s.libmcminiSem = 0 ∧ s.template ≠ .forking) →
    s.failed = 1 ∨ latest s.branches = .live
  failure : s.failed = 1 → s.libmcminiSem = 0 ∧ (∀ b ∈ s.branches, b.request ≠ s.requests) ∧
    (s.mcmini = .woken ∨ s.mcmini = .waitingForFork ∨ ∃ err, s.mcmini = .threw (.forkFailed err))
  threw : ∀ e, s.mcmini = .threw e → s.failed = 1 ∧ ∃ err, e = .forkFailed err

/-- A branch which has not been reaped is the latest. -/
theorem eq_cons_of_unreaped (hl : ∀ b ∈ l.tail, b.status = .reaped) (hi : l[i]? = some b)
    (hb : b.status ≠ .reaped) : i = 0 ∧ ∃ old, l = b :: old := by
  cases l with
  | nil => simp at hi
  | cons b' old =>
    cases i with
    | zero =>
      obtain rfl := Option.some.inj hi
      exact ⟨rfl, old, rfl⟩
    | succ i => exact absurd (hl b (List.mem_of_getElem? hi)) hb

theorem Branch.Runs.unreaped (h : b.Runs) : b.status ≠ .reaped := by
  rcases h with h | h
  · simp [h]
  · simp [h]

/-- A template which forks has no other branch. -/
theorem State.Orderly.of_forking (h : s.Orderly) (hforking : s.template = .forking) :
    (∀ b ∈ s.branches, b.status = .reaped) ∧ s.mcmini = .waitingForFork ∧
      s.libmcminiSem = 0 ∧ s.mcminiProcessSem = 0 ∧ s.templateHandler = .idle ∧
      s.sigchldSem = 0 := by
  have hdeath := h.death
  have hrequest := h.request
  rw [hforking] at hdeath hrequest
  have hlatest : latest s.branches = .reaped := by grind
  refine ⟨?_, by grind, by grind, by grind, by grind, by grind⟩
  intro b hb
  have hformer := h.former
  cases hbranches : s.branches with
  | nil => simp [hbranches] at hb
  | cons b' old =>
    rw [hbranches] at hb hlatest hformer
    rcases List.mem_cons.mp hb with rfl | hb
    · exact hlatest
    · exact hformer b hb

/-- What a branch does with permits and reports does not matter here. -/
theorem State.Orderly.setOwing (h : s.Orderly) (hi : s.branches[i]? = some b)
    (hb : b.status ≠ .reaped) (owing : Option RunnerId)
    (childSideSem modelSideSem : Multiset (RunnerId × ℕ)) :
    State.Orderly { s with
      branches := s.branches.set i { b with owing := owing }
      childSideSem := childSideSem
      modelSideSem := modelSideSem } := by
  have hformer := h.former
  have hnumbers := h.numbers
  have hdeath := h.death
  have hpending := h.pending
  have hlive := h.live
  have hhandle := h.handle
  have hanswered := h.answered
  have hfailure := h.failure
  obtain ⟨rfl, old, hbranches⟩ := eq_cons_of_unreaped hformer hi hb
  rw [hbranches] at hformer hnumbers hdeath hpending hlive hhandle hanswered hfailure ⊢
  simp only [List.set_cons_zero]
  exact { h with
    former := by grind
    numbers := by grind
    death := by grind
    pending := by grind
    live := by grind
    handle := by grind
    answered := by grind
    failure := by grind }

theorem State.Orderly.die (h : s.Orderly) (hi : s.branches[i]? = some b)
    (hb : b.status = .killed) :
    State.Orderly { s with
      branches := s.branches.set i { b with status := .zombie }
      templatePending := true } := by
  have hformer := h.former
  have hnumbers := h.numbers
  have hdeath := h.death
  have hpending := h.pending
  have hlive := h.live
  have hhandle := h.handle
  have hanswered := h.answered
  have hfailure := h.failure
  obtain ⟨rfl, old, hbranches⟩ := eq_cons_of_unreaped hformer hi (by simp [hb])
  rw [hbranches] at hformer hnumbers hdeath hpending hlive hhandle hanswered hfailure ⊢
  simp only [List.set_cons_zero]
  exact { h with
    former := by grind
    numbers := by grind
    death := by grind
    pending := by grind
    live := by grind
    handle := by grind
    answered := by grind
    failure := by grind }

theorem State.Orderly.reap (h : s.Orderly) (hi : s.branches[i]? = some b)
    (hb : b.status = .zombie) (hidle : s.templateHandler = .idle) :
    State.Orderly { s with
      templatePending := false
      branches := s.branches.set i { b with status := .reaped }
      templateHandler := .forwarding (WaitStatus.signaled sigusr1).signalMcmini } := by
  have hformer := h.former
  have hnumbers := h.numbers
  have hdeath := h.death
  have hpending := h.pending
  have hlive := h.live
  have hhandle := h.handle
  have hanswered := h.answered
  have hfailure := h.failure
  obtain ⟨rfl, old, hbranches⟩ := eq_cons_of_unreaped hformer hi (by simp [hb])
  have hsignal' : (WaitStatus.signaled sigusr1).signalMcmini = false := by decide
  rw [hbranches] at hformer hnumbers hdeath hpending hlive hhandle hanswered hfailure ⊢
  simp only [hsignal', List.set_cons_zero]
  exact { h with
    former := by grind
    numbers := by grind
    death := by grind
    pending := by grind
    live := by grind
    handle := by grind
    answered := by grind
    failure := by grind
    handler := by grind }

/-- The handle is that of the latest branch, which the destructor kills. -/
theorem State.Orderly.destroyHandle {pid : ℤ} (h : s.Orderly) (hmcmini : s.mcmini = .holding pid) :
    (s.destroyHandle pid).Orderly := by
  have hformer := h.former
  have hnumbers := h.numbers
  have hrequest := h.request
  have hdeath := h.death
  have hpending := h.pending
  have hlive := h.live
  have hhandle := h.handle
  have hanswered := h.answered
  have hfailure := h.failure
  have hlatest := hhandle pid (by rw [hmcmini]; rfl)
  obtain ⟨b, old, hbranches⟩ : ∃ b old, s.branches = b :: old := by
    cases hbranches : s.branches with
    | nil => grind
    | cons b old => exact ⟨b, old, rfl⟩
  have hblive : b.status = .live := by grind
  obtain ⟨-, -, hpos, hpid⟩ := hlive b (by simp [hbranches]) hblive
  obtain rfl : pid = b.pid := by grind
  have hold : old.map (·.kill b.pid) = old := by
    refine (List.map_congr_left fun b' hb' => ?_).trans (List.map_id old)
    have hreaped := hformer b' (by simpa [hbranches] using hb')
    rw [Branch.kill, if_neg (by simp [hreaped]), id]
  have hmap : s.branches.map (·.kill b.pid) = { b with status := .killed } :: old := by
    rw [hbranches, List.map_cons, hold, Branch.kill, if_pos ⟨rfl, hblive⟩]
  rw [State.destroyHandle, if_neg (not_le.mpr hpos), hmap]
  rw [hbranches] at hformer hnumbers hdeath hpending hlive hhandle hanswered hfailure
  exact { h with
    former := by grind
    numbers := by grind
    request := by grind
    death := by grind
    pending := by grind
    live := by grind
    handle := by grind
    answered := by grind
    failure := by grind
    threw := by grind }

theorem State.Orderly.fork {pid : ℤ} (h : s.Orderly) (hforking : s.template = .forking)
    (hpid : 0 < pid) :
    State.Orderly { s with
      template := .posting
      cpid := pid
      branches := { pid := pid, request := s.served } :: s.branches } := by
  obtain ⟨hreaped, hmcmini, hlib, hsem, hidle, hdeaths⟩ := h.of_forking hforking
  have hformer := h.former
  have hnumbers := h.numbers
  have hserved := h.served
  have hrequest := h.request
  have hdeath := h.death
  have hpending := h.pending
  have hlive := h.live
  have hfailure := h.failure
  exact { h with
    former := by grind [templateForkFailed]
    numbers := by grind [templateForkFailed]
    request := by grind [templateForkFailed]
    death := by grind [templateForkFailed]
    pending := by grind [templateForkFailed]
    live := by grind [templateForkFailed]
    handle := by grind [templateForkFailed]
    answered := by grind [templateForkFailed]
    failure := by grind [templateForkFailed]
    threw := by grind [templateForkFailed] }

theorem State.Orderly.forkFailed {err : ℤ} (h : s.Orderly) (hforking : s.template = .forking)
    (hloop : s.loop = .thread) :
    State.Orderly { s with
      template := .posting, err := err, cpid := s.loop.storedOnFailure } := by
  obtain ⟨hreaped, hmcmini, hlib, hsem, hidle, hdeaths⟩ := h.of_forking hforking
  have hnumbers := h.numbers
  have hserved := h.served
  have hrequest := h.request
  have hdeath := h.death
  have hfailure := h.failure
  have hlatest : latest s.branches = .reaped := by grind
  rw [hloop]
  exact { h with
    numbers := by grind [templateForkFailed, Loop.storedOnFailure]
    request := by grind [templateForkFailed, Loop.storedOnFailure]
    death := by grind [templateForkFailed, Loop.storedOnFailure]
    live := by grind [templateForkFailed, Loop.storedOnFailure]
    answered := by grind [templateForkFailed, Loop.storedOnFailure]
    failure := by grind [templateForkFailed, Loop.storedOnFailure]
    threw := by grind [templateForkFailed, Loop.storedOnFailure] }

/-- Unless McMini has a handle or is about to have one, no branch is live. -/
theorem State.Orderly.not_live (h : s.Orderly) (hhandle : s.mcmini.handle = none)
    (hwaiting : s.mcmini ≠ .waitingForFork) (hwoken : s.mcmini ≠ .woken)
    (hb : s.branches.head? = some b) : b.status ≠ .live := by
  intro hblive
  rcases (h.live b hb hblive).2.2.2 with hpid | hmcmini | hmcmini
  · rw [hhandle] at hpid
    cases hpid
  · exact hwaiting hmcmini
  · exact hwoken hmcmini

/-! What McMini does. The branches and the template are not touched. -/

/-- McMini executes a runner of the branch whose handle it has, or is done with it. -/
theorem State.Orderly.setHolder (h : s.Orderly) {pid : ℤ} {mcmini : McMiniThread}
    (hbefore : s.mcmini.handle = some pid) (hafter : mcmini.handle = some pid)
    (childSideSem modelSideSem : Multiset (RunnerId × ℕ)) :
    State.Orderly { s with
      mcmini := mcmini, childSideSem := childSideSem, modelSideSem := modelSideSem } := by
  have hrequest := h.request
  have hlive := h.live
  have hfailure := h.failure
  exact { h with
    request := by grind
    live := by grind
    handle := fun _ _ => h.handle pid hbefore
    answered := by grind
    failure := by grind
    threw := by grind }

theorem State.Orderly.resetSemaphores (h : s.Orderly) (hmcmini : s.mcmini = .destroyed) :
    State.Orderly { s with childSideSem := 0, modelSideSem := 0, mcmini := .requesting } := by
  have hrequest := h.request
  have hfailure := h.failure
  have hnot := fun b (hb : s.branches.head? = some b) =>
    h.not_live (by rw [hmcmini]; rfl) (by simp [hmcmini]) (by simp [hmcmini]) hb
  rw [hmcmini] at hrequest hfailure
  exact { h with
    request := hrequest
    live := fun b hb hblive => absurd hblive (hnot b hb)
    handle := nofun
    answered := by grind
    failure := by grind
    threw := nofun }

theorem State.Orderly.postRequest (h : s.Orderly) (hmcmini : s.mcmini = .requesting) :
    State.Orderly { s with
      mcmini := .waitingForFork
      libmcminiSem := s.libmcminiSem + 1
      requests := s.requests + 1 } := by
  have hserved := h.served
  have hrequest := h.request
  have hfailure := h.failure
  have hnot := fun b (hb : s.branches.head? = some b) =>
    h.not_live (by rw [hmcmini]; rfl) (by simp [hmcmini]) (by simp [hmcmini]) hb
  rw [hmcmini] at hrequest hfailure
  exact { h with
    served := by grind
    request := by grind
    live := fun b hb hblive => absurd hblive (hnot b hb)
    handle := nofun
    answered := by grind
    failure := by grind
    threw := nofun }

theorem State.Orderly.semWait (h : s.Orderly) (hmcmini : s.mcmini = .waitingForFork)
    (hsem : 0 < s.mcminiProcessSem) :
    State.Orderly { s with mcmini := .woken, mcminiProcessSem := s.mcminiProcessSem - 1 } := by
  have hrequest := h.request
  have hlive := h.live
  have hanswered := h.answered
  have hfailure := h.failure
  rw [hmcmini] at hrequest hlive hanswered hfailure
  exact { h with
    request := by grind
    live := by grind
    handle := nofun
    answered := by grind
    failure := by grind
    threw := nofun }

/-- A new branch is live, and `cpid` is its pid. -/
theorem State.Orderly.makeHandle (h : s.Orderly) (hmcmini : s.mcmini = .woken) :
    s.makeHandle.Orderly := by
  have hrequest := h.request
  have hlive := h.live
  have hanswered := h.answered
  have hfailure := h.failure
  rw [hmcmini] at hrequest hlive hanswered hfailure
  rw [State.makeHandle, if_neg (by rw [h.signal]; exact lt_irrefl 0)]
  split_ifs with hfailed
  · exact { h with
      request := hrequest
      live := by grind [templateForkFailed]
      handle := nofun
      answered := by grind
      failure := by grind
      threw := by grind }
  · exact { h with
      request := hrequest
      live := by grind
      handle := by grind
      answered := by grind
      failure := by grind
      threw := nofun }

/-! What the template does between two forks. -/

theorem State.Orderly.takeRequest (h : s.Orderly) (hwaiting : s.template = .waitingForRequest)
    (hsem : 0 < s.libmcminiSem) :
    State.Orderly { s with
      template := .forking
      libmcminiSem := s.libmcminiSem - 1
      served := s.served + 1 } := by
  have hnumbers := h.numbers
  have hserved := h.served
  have hrequest := h.request
  have hdeath := h.death
  have hanswered := h.answered
  have hfailure := h.failure
  rw [hwaiting] at hrequest hdeath hanswered
  exact { h with
    numbers := by grind
    served := by grind
    request := by grind
    death := hdeath
    answered := by grind
    failure := by grind }

theorem State.Orderly.postFork (h : s.Orderly) (hposting : s.template = .posting) :
    State.Orderly { s with
      template := .waitingForDeath, mcminiProcessSem := s.mcminiProcessSem + 1 } := by
  have hnumbers := h.numbers
  have hrequest := h.request
  have hdeath := h.death
  have hanswered := h.answered
  rw [hposting] at hrequest hdeath hanswered
  exact { h with
    numbers := by grind
    request := by grind
    death := hdeath
    answered := by grind }

theorem State.Orderly.takeDeath (h : s.Orderly) (hwaiting : s.template = .waitingForDeath)
    (hsem : 0 < s.sigchldSem) :
    State.Orderly { s with template := .waitingForRequest, sigchldSem := s.sigchldSem - 1 } := by
  have hnumbers := h.numbers
  have hrequest := h.request
  have hdeath := h.death
  have hanswered := h.answered
  rw [hwaiting] at hrequest hdeath hanswered
  exact { h with
    numbers := by grind
    request := hrequest
    death := by grind
    answered := by grind }

theorem State.Orderly.templateKill (h : s.Orderly)
    (hforwarding : s.templateHandler = .forwarding false) :
    State.Orderly { s with
      sigchld := s.sigchld + false.toNat, templateHandler := .releasing } := by
  have hdeath := h.death
  rw [hforwarding] at hdeath
  exact { h with
    death := hdeath
    handler := nofun }

theorem State.Orderly.templateSemPost (h : s.Orderly) (hreleasing : s.templateHandler = .releasing) :
    State.Orderly { s with templateHandler := .idle, sigchldSem := s.sigchldSem + 1 } := by
  have hdeath := h.death
  rw [hreleasing] at hdeath
  exact { h with
    death := by grind
    handler := nofun }

theorem State.Orderly.step (h : s.Orderly) (hloop : s.loop = .thread ∨ ∀ err, a ≠ .forkFailed err)
    (hstep : step a s = some s') : s'.Orderly := by
  cases a with
  | wakeThread id =>
    cases hmcmini : s.mcmini with
    | holding pid =>
      simp only [Template.step, hmcmini, Option.some.injEq] at hstep
      subst hstep
      exact h.setHolder (by rw [hmcmini]; rfl) rfl _ _
    | _ => simp [Template.step, hmcmini] at hstep
  | takeReport request =>
    cases hmcmini : s.mcmini with
    | executing pid id =>
      simp only [Template.step, hmcmini, Option.ite_none_right_eq_some,
        Option.some.injEq] at hstep
      obtain ⟨-, rfl⟩ := hstep
      exact h.setHolder (by rw [hmcmini]; rfl) rfl _ _
    | _ => simp [Template.step, hmcmini] at hstep
  | destroy =>
    cases hmcmini : s.mcmini with
    | holding pid =>
      simp only [Template.step, hmcmini, Option.some.injEq] at hstep
      exact hstep ▸ h.destroyHandle hmcmini
    | _ => simp [Template.step, hmcmini] at hstep
  | resetSemaphores =>
    obtain ⟨hmcmini, hstep⟩ := Option.ite_none_right_eq_some.mp hstep
    rw [if_neg (by rw [h.signal]; exact lt_irrefl 0)] at hstep
    cases hstep
    exact h.resetSemaphores hmcmini
  | postRequest =>
    simp only [Template.step, Option.ite_none_right_eq_some, Option.some.injEq] at hstep
    obtain ⟨hmcmini, rfl⟩ := hstep
    exact h.postRequest hmcmini
  | semWait =>
    simp only [Template.step, Option.ite_none_right_eq_some, Option.some.injEq] at hstep
    obtain ⟨⟨hmcmini, hsem⟩, rfl⟩ := hstep
    exact h.semWait hmcmini hsem
  | makeHandle =>
    simp only [Template.step, Option.ite_none_right_eq_some, Option.some.injEq] at hstep
    obtain ⟨hmcmini, rfl⟩ := hstep
    exact h.makeHandle hmcmini
  | takeRequest =>
    simp only [Template.step, Option.ite_none_right_eq_some, Option.some.injEq] at hstep
    obtain ⟨⟨hwaiting, hsem⟩, rfl⟩ := hstep
    exact h.takeRequest hwaiting hsem
  | fork pid =>
    simp only [Template.step, Option.ite_none_right_eq_some, Option.some.injEq] at hstep
    obtain ⟨⟨hforking, hpid, -⟩, rfl⟩ := hstep
    exact h.fork hforking hpid
  | forkFailed err =>
    simp only [Template.step, Option.ite_none_right_eq_some, Option.some.injEq] at hstep
    obtain ⟨hforking, rfl⟩ := hstep
    exact h.forkFailed hforking (hloop.resolve_right fun hnot => hnot err rfl)
  | postFork =>
    simp only [Template.step, Option.ite_none_right_eq_some, Option.some.injEq] at hstep
    obtain ⟨hposting, rfl⟩ := hstep
    exact h.postFork hposting
  | takeDeath =>
    simp only [Template.step, Option.ite_none_right_eq_some, Option.some.injEq] at hstep
    obtain ⟨⟨hwaiting, hsem⟩, rfl⟩ := hstep
    exact h.takeDeath hwaiting hsem
  | interrupt =>
    -- the handler is not running while the template waits for a request
    simp only [Template.step, Option.ite_none_right_eq_some, Option.some.injEq] at hstep
    obtain ⟨⟨-, hwaiting, hactive⟩, -⟩ := hstep
    have hdeath := h.death
    rw [hwaiting] at hdeath
    grind
  | templateWaitpid i =>
    simp only [Template.step, Option.ite_none_right_eq_some] at hstep
    obtain ⟨⟨-, hidle⟩, hstep⟩ := hstep
    cases hi : s.branches[i]? with
    | none => simp [hi] at hstep
    | some b =>
      simp only [hi, Option.ite_none_right_eq_some, Option.some.injEq] at hstep
      obtain ⟨hzombie, rfl⟩ := hstep
      exact h.reap hi hzombie hidle
  | templateKill =>
    cases hforwarding : s.templateHandler with
    | forwarding signalMcmini =>
      simp only [Template.step, hforwarding, Option.some.injEq] at hstep
      subst hstep
      cases signalMcmini with
      | true => exact absurd hforwarding h.handler
      | false => exact h.templateKill hforwarding
    | _ => simp [Template.step, hforwarding] at hstep
  | templateSemPost =>
    simp only [Template.step, Option.ite_none_right_eq_some, Option.some.injEq] at hstep
    obtain ⟨hreleasing, rfl⟩ := hstep
    exact h.templateSemPost hreleasing
  | takePermit i id request =>
    cases hi : s.branches[i]? with
    | none => simp [Template.step, hi] at hstep
    | some b =>
      simp only [Template.step, hi, Option.ite_none_right_eq_some, Option.some.injEq] at hstep
      obtain ⟨⟨hruns, -⟩, rfl⟩ := hstep
      exact h.setOwing hi hruns.unreaped _ _ _
  | postReport i =>
    cases hi : s.branches[i]? with
    | none => simp [Template.step, hi] at hstep
    | some b =>
      cases howing : b.owing with
      | none => simp [Template.step, hi, howing] at hstep
      | some id =>
        simp only [Template.step, hi, howing, Option.ite_none_right_eq_some,
          Option.some.injEq] at hstep
        obtain ⟨hruns, rfl⟩ := hstep
        exact h.setOwing hi hruns.unreaped _ _ _
  | die i =>
    cases hi : s.branches[i]? with
    | none => simp [Template.step, hi] at hstep
    | some b =>
      simp only [Template.step, hi, Option.ite_none_right_eq_some, Option.some.injEq] at hstep
      obtain ⟨hkilled, rfl⟩ := hstep
      exact h.die hi hkilled

/-! ### Permits and reports -/

@[grind]
def McMiniThread.executes : McMiniThread → ℕ
  | .executing _ _ => 1
  | _ => 0

/-- The permit which the branch forked last has not yet answered. -/
@[grind]
def owed : List Branch → ℕ
  | [] => 0
  | b :: _ => if b.owing = none then 0 else 1

/-- The permit given last is in its mailbox, is being answered, or is answered. -/
structure State.Tidy (s : State) : Prop where
  units : s.childSideSem.card + owed s.branches + s.modelSideSem.card = s.mcmini.executes
  permits : ∀ p ∈ s.childSideSem, p.2 = s.requests
  reports : ∀ p ∈ s.modelSideSem, p.2 = s.requests

theorem State.Tidy.empty (h : s.Tidy) (hmcmini : s.mcmini.executes = 0) :
    s.childSideSem = 0 ∧ owed s.branches = 0 ∧ s.modelSideSem = 0 := by
  have hunits := h.units
  exact ⟨Multiset.card_eq_zero.mp (by omega), by omega, Multiset.card_eq_zero.mp (by omega)⟩

/-- The answers come from the branch of the last request. -/
theorem State.Orderly.request_of_executes (h : s.Orderly) (hmcmini : s.mcmini.executes = 1)
    (hb : s.branches.head? = some b) : b.request = s.requests := by
  have hlive : latest s.branches = .live := by
    cases hm : s.mcmini with
    | executing pid id => exact h.handle pid (by rw [hm]; rfl)
    | _ => simp [hm, McMiniThread.executes] at hmcmini
  exact (h.live b hb ((latest_of_head? hb).symm.trans hlive)).1

theorem State.Tidy.step (h : s.Tidy) (horderly : s.Orderly) (hstep : step a s = some s') :
    s'.Tidy := by
  have hempty := h.empty
  obtain ⟨hunits, hpermits, hreports⟩ := h
  cases a with
  | wakeThread id =>
    cases hmcmini : s.mcmini with
    | holding pid =>
      simp only [Template.step, hmcmini, Option.some.injEq] at hstep
      subst hstep
      -- between two calls nothing is on its way, so this permit is the only unit
      obtain ⟨hchild, howed, hmodel⟩ := hempty (by rw [hmcmini]; rfl)
      exact ⟨by simp [hchild, howed, hmodel, McMiniThread.executes], by simp [hchild],
        by simp [hmodel]⟩
    | _ => simp [Template.step, hmcmini] at hstep
  | takeReport request =>
    cases hmcmini : s.mcmini with
    | executing pid id =>
      simp only [Template.step, hmcmini, Option.ite_none_right_eq_some,
        Option.some.injEq] at hstep
      obtain ⟨hreport, rfl⟩ := hstep
      have hcard := Multiset.card_erase_add_one hreport
      refine ⟨?_, hpermits, fun p hp => hreports p (Multiset.mem_of_mem_erase hp)⟩
      simp only [hmcmini, McMiniThread.executes] at hunits ⊢
      omega
    | _ => simp [Template.step, hmcmini] at hstep
  | destroy =>
    cases hmcmini : s.mcmini with
    | holding pid =>
      simp only [Template.step, hmcmini, Option.some.injEq, State.destroyHandle] at hstep
      obtain ⟨hchild, howed, hmodel⟩ := hempty (by rw [hmcmini]; rfl)
      -- a branch which is killed owes what it has owed, which is nothing
      have hmap : owed (s.branches.map (·.kill pid)) = 0 := by
        cases hbranches : s.branches with
        | nil => rfl
        | cons b old =>
          rw [hbranches] at howed
          have howing : (b.kill pid).owing = b.owing := by
            unfold Branch.kill
            split_ifs <;> rfl
          simpa [owed, howing] using howed
      split_ifs at hstep
      · subst hstep
        exact ⟨by simp [hchild, howed, hmodel, McMiniThread.executes], hpermits, hreports⟩
      · subst hstep
        exact ⟨by simp [hchild, hmap, hmodel, McMiniThread.executes], hpermits, hreports⟩
    | _ => simp [Template.step, hmcmini] at hstep
  | resetSemaphores =>
    simp only [Template.step, Option.ite_none_right_eq_some, horderly.signal, lt_irrefl, if_false,
      Option.some.injEq] at hstep
    obtain ⟨hmcmini, rfl⟩ := hstep
    -- resetting the semaphores takes nothing away, as they are zero
    obtain ⟨-, howed, -⟩ := hempty (by rw [hmcmini]; rfl)
    exact ⟨by simp [howed, McMiniThread.executes], by simp, by simp⟩
  | postRequest =>
    simp only [Template.step, Option.ite_none_right_eq_some, Option.some.injEq] at hstep
    obtain ⟨hmcmini, rfl⟩ := hstep
    obtain ⟨hchild, howed, hmodel⟩ := hempty (by rw [hmcmini]; rfl)
    exact ⟨by simp [hchild, howed, hmodel, McMiniThread.executes], by simp [hchild],
      by simp [hmodel]⟩
  | semWait =>
    simp only [Template.step, Option.ite_none_right_eq_some, Option.some.injEq] at hstep
    obtain ⟨⟨hmcmini, hsem⟩, rfl⟩ := hstep
    exact ⟨by simpa [hmcmini, McMiniThread.executes] using hunits, hpermits, hreports⟩
  | makeHandle =>
    simp only [Template.step, Option.ite_none_right_eq_some, State.makeHandle, horderly.signal,
      lt_irrefl, if_false, Option.some.injEq] at hstep
    obtain ⟨hmcmini, rfl⟩ := hstep
    rw [hmcmini] at hunits
    split_ifs
    · exact ⟨hunits, hpermits, hreports⟩
    · exact ⟨hunits, hpermits, hreports⟩
  | fork pid =>
    simp only [Template.step, Option.ite_none_right_eq_some, Option.some.injEq] at hstep
    obtain ⟨⟨hforking, hpid, -⟩, rfl⟩ := hstep
    have hmcmini := (horderly.of_forking hforking).2.1
    obtain ⟨hchild, howed, hmodel⟩ := hempty (by rw [hmcmini]; rfl)
    exact ⟨by simp [hchild, hmodel, owed, hmcmini, McMiniThread.executes], hpermits, hreports⟩
  | templateWaitpid i =>
    simp only [Template.step, Option.ite_none_right_eq_some] at hstep
    obtain ⟨⟨-, hidle⟩, hstep⟩ := hstep
    cases hi : s.branches[i]? with
    | none => simp [hi] at hstep
    | some b =>
      simp only [hi, Option.ite_none_right_eq_some, Option.some.injEq] at hstep
      obtain ⟨hzombie, rfl⟩ := hstep
      -- the other branches have been reaped: what still runs is the latest one
      obtain ⟨rfl, old, hbranches⟩ := eq_cons_of_unreaped horderly.former hi (by simp [hzombie])
      rw [hbranches] at hunits
      exact ⟨by simpa [hbranches, owed] using hunits, hpermits, hreports⟩
  | templateKill =>
    cases hforwarding : s.templateHandler with
    | forwarding signalMcmini =>
      simp only [Template.step, hforwarding, Option.some.injEq] at hstep
      exact hstep ▸ ⟨hunits, hpermits, hreports⟩
    | _ => simp [Template.step, hforwarding] at hstep
  | takePermit i id request =>
    cases hi : s.branches[i]? with
    | none => simp [Template.step, hi] at hstep
    | some b =>
      simp only [Template.step, hi, Option.ite_none_right_eq_some, Option.some.injEq] at hstep
      obtain ⟨⟨hruns, hnone, hpermit⟩, rfl⟩ := hstep
      obtain ⟨rfl, old, hbranches⟩ := eq_cons_of_unreaped horderly.former hi hruns.unreaped
      -- the unit goes from the semaphore to the branch, which owes an answer now
      have hcard := Multiset.card_erase_add_one hpermit
      refine ⟨?_, fun p hp => hpermits p (Multiset.mem_of_mem_erase hp), hreports⟩
      simp only [hbranches, List.set_cons_zero, owed, hnone, if_true, reduceCtorEq,
        if_false] at hunits ⊢
      omega
  | postReport i =>
    cases hi : s.branches[i]? with
    | none => simp [Template.step, hi] at hstep
    | some b =>
      cases howing : b.owing with
      | none => simp [Template.step, hi, howing] at hstep
      | some id =>
        simp only [Template.step, hi, howing, Option.ite_none_right_eq_some,
          Option.some.injEq] at hstep
        obtain ⟨hruns, rfl⟩ := hstep
        obtain ⟨rfl, old, hbranches⟩ := eq_cons_of_unreaped horderly.former hi hruns.unreaped
        simp only [hbranches, owed, howing, reduceCtorEq, if_false] at hunits
        -- who owes an answer owes it to the call which is under way
        have hexecutes : s.mcmini.executes = 1 := by
          have hle : s.mcmini.executes ≤ 1 := by cases s.mcmini <;> simp [McMiniThread.executes]
          omega
        have hrequest : b.request = s.requests :=
          horderly.request_of_executes hexecutes (by simp [hbranches])
        refine ⟨?_, hpermits, Multiset.forall_mem_cons.mpr ⟨hrequest, hreports⟩⟩
        simp only [hbranches, List.set_cons_zero, owed, if_true, Multiset.card_cons]
        omega
  | die i =>
    cases hi : s.branches[i]? with
    | none => simp [Template.step, hi] at hstep
    | some b =>
      simp only [Template.step, hi, Option.ite_none_right_eq_some, Option.some.injEq] at hstep
      obtain ⟨hkilled, rfl⟩ := hstep
      obtain ⟨rfl, old, hbranches⟩ := eq_cons_of_unreaped horderly.former hi (by simp [hkilled])
      rw [hbranches] at hunits
      exact ⟨by simpa [hbranches, owed] using hunits, hpermits, hreports⟩
  | takeRequest | forkFailed | postFork | takeDeath | interrupt | templateSemPost =>
    simp only [Template.step, Option.ite_none_right_eq_some, Option.some.injEq] at hstep
    obtain ⟨-, rfl⟩ := hstep
    exact ⟨hunits, hpermits, hreports⟩

/-! ### Separation -/

/-- McMini waits for the answer to its request, and the template for the death of a branch
which does not die. -/
structure State.Left (s : State) : Prop where
  mcmini : s.mcmini = .waitingForFork ∧ s.mcminiProcessSem = 0
  template : s.template = .waitingForDeath ∧ s.sigchldSem = 0 ∧ s.templateHandler = .idle
  branches : ∀ b ∈ s.branches, b.status = .live ∨ b.status = .reaped

/-- Branches are created one at a time and do not get each other's permits and reports. -/
structure State.Separated (s : State) : Prop where
  /-- A call which has returned has got the pid of the branch forked for its request. -/
  returned : ∀ pid, s.mcmini.handle = some pid →
    ∃ b ∈ s.branches, b.request = s.requests ∧ b.pid = pid ∧ b.status = .live
  /-- A call throws if the `fork` for its request has failed. -/
  threw : ∀ e, s.mcmini = .threw e →
    (∃ err, e = .forkFailed err) ∧ ∀ b ∈ s.branches, b.request ≠ s.requests
  oneAtATime : ∀ b ∈ s.branches.tail, b.status = .reaped
  permits : ∀ p ∈ s.childSideSem, ∀ b ∈ s.branches, b.Runs → p.2 = b.request
  reports : ∀ p ∈ s.modelSideSem, p.2 = s.requests
  notLeft : ¬ s.Left

theorem State.Orderly.notLeft (h : s.Orderly) : ¬ s.Left := by
  rintro ⟨⟨hmcmini, hsem⟩, ⟨htemplate, hdeaths, hidle⟩, hbranches⟩
  have hrequest := h.request
  have hdeath := h.death
  have hserved := h.served
  have hfailure := h.failure
  have hnumbers := h.numbers
  have hlive := h.live
  cases hl : s.branches with
  | nil => grind
  | cons b old =>
    rw [hl] at hbranches hdeath hnumbers hlive
    have hlib : s.libmcminiSem = 1 := by grind
    have hstatus : b.status = .live := by
      rcases hbranches b (by simp) with hb | hb
      · exact hb
      · grind
    have hnumber := (hlive b rfl hstatus).1
    have hle := (hnumbers b (by simp)).1
    omega

theorem State.Orderly.separated (h : s.Orderly) (htidy : s.Tidy) : s.Separated := by
  refine ⟨?_, ?_, h.former, ?_, htidy.reports, h.notLeft⟩
  · intro pid hpid
    have hlatest := h.handle pid hpid
    have hlive := h.live
    cases hl : s.branches with
    | nil => simp [hl, latest] at hlatest
    | cons b old =>
      rw [hl] at hlatest hlive
      obtain ⟨hrequest, -, -, hhandle⟩ := hlive b rfl hlatest
      exact ⟨b, by simp, hrequest, by grind, hlatest⟩
  · intro e he
    obtain ⟨hfailed, herr⟩ := h.threw e he
    exact ⟨herr, (h.failure hfailed).2.1⟩
  · intro p hp b hb hruns
    have hexecutes : s.mcmini.executes = 1 := by
      have hle : s.mcmini.executes ≤ 1 := by cases s.mcmini <;> simp [McMiniThread.executes]
      have hunits := htidy.units
      have hcard := Multiset.card_pos_iff_exists_mem.mpr ⟨p, hp⟩
      omega
    obtain ⟨i, hi⟩ := List.mem_iff_getElem?.mp hb
    obtain ⟨rfl, old, hl⟩ := eq_cons_of_unreaped h.former hi hruns.unreaped
    have hrequest : b.request = s.requests := h.request_of_executes hexecutes (by simp [hl])
    exact (htidy.permits p hp).trans hrequest.symm

theorem step_loop (hstep : step a s = some s') : s'.loop = s.loop := by
  cases a with
  | destroy =>
    cases hmcmini : s.mcmini with
    | holding pid =>
      simp only [step, hmcmini, Option.some.injEq, State.destroyHandle] at hstep
      split_ifs at hstep <;> exact hstep ▸ rfl
    | _ => simp [step, hmcmini] at hstep
  | _ => grind [step, State.makeHandle]

theorem orderly_start (loop : Loop) : (start loop).Orderly := by
  constructor <;> simp [start, latest, State.failed, templateForkFailed, handling,
    BranchStatus.unreaped, TemplateThread.awaiting, TemplateThread.serving, McMiniThread.waiting,
    McMiniThread.handle]

theorem orderly_of_run {loop : Loop} (hrun : runFrom step (start loop) actions = some s)
    (hloop : loop = .thread ∨ ∀ err, .forkFailed err ∉ actions) :
    s.loop = loop ∧ s.Orderly ∧ s.Tidy := by
  refine runFrom_induction (P := fun actions s => (loop = .thread ∨ ∀ err, .forkFailed err ∉ actions) →
    s.loop = loop ∧ s.Orderly ∧ s.Tidy) ?_ ?_ hrun hloop
  · exact fun _ => ⟨rfl, orderly_start loop, rfl, by simp [start], by simp [start]⟩
  · intro actions s a s' _ ih hstep hloop
    obtain ⟨hs, horderly, htidy⟩ := ih (hloop.imp_right fun h err hmem =>
      h err (List.mem_append_left _ hmem))
    refine ⟨?_, horderly.step ?_ hstep, htidy.step horderly hstep⟩
    · exact (step_loop hstep).trans hs
    · rw [hs]
      exact hloop.imp_right fun h err ha => h err (by simp [ha])

/-- When `fork` fails in the process's loop, `make_new_process` returns a handle. -/
theorem State.Orderly.not_separated (h : s.Orderly) (hloop : s.loop = .process)
    (hforking : s.template = .forking) (err : ℤ) :
    ∃ s', runFrom Template.step s [.forkFailed err, .postFork, .semWait, .makeHandle] = some s' ∧
      s'.mcmini = .holding (-1) ∧ ¬ s'.Separated := by
  obtain ⟨hreaped, hmcmini, -, hsem, -, -⟩ := h.of_forking hforking
  refine ⟨{ s with
    template := .waitingForDeath, err := err, cpid := -1, mcmini := .holding (-1) }, ?_, rfl, ?_⟩
  · have hcpid : (-1 : ℤ) ≠ templateForkFailed := by decide
    simp [runFrom_cons, Template.step, hforking, hmcmini, hsem, hloop, Loop.storedOnFailure,
      State.makeHandle, h.signal, hcpid]
  · intro hseparated
    obtain ⟨b, hb, -, -, hlive⟩ := hseparated.returned (-1) rfl
    have hstatus := hreaped b hb
    simp [hlive] at hstatus

/-- **One branch at a time.** Branches stay separated under the loop of the template thread, and
under that of the template process as long as no `fork` fails. The first one which does leaves
McMini with a handle for no process. -/
theorem separated_of_run {loop : Loop} (hrun : runFrom step (start loop) actions = some s) :
    (loop = .thread ∨ (∀ err, .forkFailed err ∉ actions) → s.Separated) ∧
      (loop = .process → (∀ err, .forkFailed err ∉ actions) → s.template = .forking →
        ∀ err, ∃ s', runFrom step s [.forkFailed err, .postFork, .semWait, .makeHandle] = some s' ∧
          s'.mcmini = .holding (-1) ∧ ¬ s'.Separated) := by
  refine ⟨fun hloop => ?_, fun hprocess hforks hforking err => ?_⟩
  · obtain ⟨-, horderly, htidy⟩ := orderly_of_run hrun hloop
    exact horderly.separated htidy
  · obtain ⟨hloop, horderly, -⟩ := orderly_of_run hrun (.inr hforks)
    exact horderly.not_separated (hloop.trans hprocess) hforking err

/-- The first `fork` of the template process fails. -/
theorem not_separated_of_forkFailed :
    ¬ ∀ loop actions s, runFrom step (start loop) actions = some s → s.Separated := by
  intro h
  have hrun : (runFrom step (start .process) [.resetSemaphores, .postRequest, .takeRequest,
      .forkFailed 11, .postFork, .semWait, .makeHandle]).map (fun s => (s.mcmini, s.branches)) =
        some (.holding (-1), []) := by decide
  obtain ⟨s, hs, hresult⟩ := Option.map_eq_some_iff.mp hrun
  obtain ⟨hmcmini, hbranches⟩ := Prod.mk.inj hresult
  obtain ⟨b, hb, -⟩ := (h _ _ s hs).returned (-1) (by rw [hmcmini]; rfl)
  rw [hbranches] at hb
  exact absurd hb (by simp)

/-- The process is replaced once. -/
theorem separated_of_replacing :
    ∃ s, runFrom step (start .process) [.resetSemaphores, .postRequest, .takeRequest, .fork 100,
      .postFork, .semWait, .makeHandle, .destroy, .resetSemaphores, .postRequest, .die 0,
      .templateWaitpid 0, .templateKill, .templateSemPost, .takeDeath, .takeRequest, .fork 101,
      .postFork, .semWait, .makeHandle] = some s ∧ s.Separated := by
  have hrun : (runFrom step (start .process) [.resetSemaphores, .postRequest, .takeRequest,
      .fork 100, .postFork, .semWait, .makeHandle, .destroy, .resetSemaphores, .postRequest,
      .die 0, .templateWaitpid 0, .templateKill, .templateSemPost, .takeDeath, .takeRequest,
      .fork 101, .postFork, .semWait, .makeHandle]).isSome := by decide
  obtain ⟨s, hs⟩ := Option.isSome_iff_exists.mp hrun
  exact ⟨s, hs, (separated_of_run hs).1 (.inr (by simp))⟩

end McMini.Template
