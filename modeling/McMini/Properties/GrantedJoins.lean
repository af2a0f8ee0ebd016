import Mathlib.Data.List.ReduceOption
import McMini.Properties.AnsweredPermits
import McMini.RealWorld.TargetProcess

/-!
# Granted joins

A thread which ends describes its exit, waits for one permit and is then past McMini's reach: it
waits for the join only. McMini holds the runner as exited when that permit has been answered, and
grants a join no sooner. So a granted join does not wait for a thread which waits for McMini.

The exception is a thread which calls `pthread_exit` after a restart before any other operation. It
checks in with its exit, and on getting the permit describes its exit once more and waits for
another permit. The first one has been the exit to the model, which never gives the second.
In every run without such a call the joins are right (`noHangingJoin_of_run`).
-/

namespace McMini

open Foundation

namespace TargetThread

variable {t : Thread} {s s' : State} {exited : Bool} {code : List Instr} {a : Action}

/-- The call which is being made, or has been made last. -/
def State.currentCall (s : State) : Option Call := (progress s.log).map (·.1)

/-- The thread ends by a return from its start routine, or by `pthread_exit`. -/
def State.EndsThread (s : State) : Prop :=
  s.currentCall = some .returns ∨ s.currentCall = some .pthreadExit

/-- The thread waits for a permit which has not been given. -/
def State.AwaitsPermit (s : State) : Prop :=
  s.code.head? = some .waitForScheduler ∧ s.childSideSem = 0

/-- The thread is at the real join with the thread of the handle. -/
def State.JoinsReally (s : State) (handle : Addr) : Prop :=
  s.code.head? = some (.lib (.join handle)) ∨ s.code.head? = some (.lib (.waitReallyExited handle))

end TargetThread

namespace TargetProcess

/-- The thread `p` is blocked in the real join with the thread `q`. -/
def State.BlockedInJoin (s : State) (p q : RunnerId) : Prop :=
  ∃ st handle, s.thread p = some st ∧ st.JoinsReally handle ∧ s.runnerOf handle = q ∧
    step (.thread p .advance) s = none

/-- The thread has exited in the model, so that it gets no permit any more, but waits for one. -/
def State.Abandoned (s : State) (q : RunnerId) : Prop :=
  s.exited q = true ∧ ∃ st, s.thread q = some st ∧ st.EndsThread ∧ st.AwaitsPermit

/-- No join waits for a thread which waits for McMini. -/
def NoHangingJoin (s : State) : Prop := ∀ p q, s.BlockedInJoin p q → ¬ s.Abandoned q

/-- A thread other than the main thread calls `pthread_exit` as its first operation after a
restart. -/
def exitsFirst (s : State) : Action → Bool
  | .thread p (.call .pthreadExit) =>
    p ≠ ridMainThread && (s.thread p).any (·.mode.isInRestartMode)
  | _ => false

end TargetProcess

namespace TargetThread

variable {t : Thread} {s s' : State} {exited : Bool} {code rest : List Instr} {a : Action}
  {mode : Mode}

/-! ### The next instruction -/

/-- What the next instruction does to the thread. -/
structure Advances (s s' : State) (instr : Instr) (code : List Instr) : Prop where
  code_eq : s.code = instr :: code
  ne_stop : instr ≠ .stop
  /-- The process is aborted by an assertion. -/
  code_eq_or : s'.code = code ∨ s'.code = [.rest .ends, .stop]
  mode : s'.mode = s.mode
  executing : s'.executing = s.executing
  retired : s'.retired = s.retired
  currentCall : s'.currentCall = s.currentCall
  permit : instr = .waitForScheduler → s.childSideSem = s'.childSideSem + 1 ∧ s'.code = code
  childSideSem : instr ≠ .waitForScheduler → s'.childSideSem = s.childSideSem
  modelSideSem : instr ≠ .wakeScheduler → s'.modelSideSem = s.modelSideSem
  mailbox : s'.mailbox = s.mailbox ∨ ∃ contents, instr = .write contents ∧ s'.mailbox = some contents
  checksIn : instr = .notifyTemplateThread → s'.pending = s.mailbox ∧ s'.code = code
  pending : instr ≠ .notifyTemplateThread →
    s'.pending = s.pending ∧ s'.hasCheckedIn = s.hasCheckedIn

theorem currentCall_concat {log : List Event} {e : Event} (he : ∀ c, e ≠ .call c) :
    (progress (log ++ [e])).map (·.1) = (progress log).map (·.1) := by
  rw [progress_concat]
  cases e with
  | call c => exact absurd rfl (he c)
  | report | checkIn => simp [Option.map_map, Function.comp_def]
  | executeRunner | permit | returned | rest => rfl

theorem exists_advances (h : s.advance = some s') : ∃ instr code, Advances s s' instr code := by
  rw [State.advance] at h
  cases hcode : s.code with
  | nil => simp [hcode] at h
  | cons instr code =>
    refine ⟨instr, code, ?_⟩
    rw [hcode] at h
    cases instr with
    | stop => cases h
    | waitForScheduler =>
      obtain ⟨hpos, hs'⟩ := Option.ite_none_right_eq_some.mp h
      obtain rfl := Option.some.inj hs'
      constructor <;> simp [hcode, State.currentCall, currentCall_concat, State.hasCheckedIn]
      omega
    | waitForBranch =>
      obtain ⟨-, hs'⟩ := Option.ite_none_right_eq_some.mp h
      obtain rfl := Option.some.inj hs'
      constructor <;> simp [hcode, State.currentCall, State.hasCheckedIn]
    | assert holds =>
      obtain rfl := Option.some.inj h
      constructor <;> cases holds <;> simp [hcode, State.currentCall, State.hasCheckedIn]
    | write | wakeScheduler | notifyTemplateThread | rest | waitForExitPermission | lib | create =>
      obtain rfl := Option.some.inj h
      constructor <;> simp [hcode, State.currentCall, currentCall_concat, State.hasCheckedIn]

/-! ### Check-ins -/

/-- A thread checks in once, waits for a permit then, and reports only after it has got one. -/
def ChecksIn : List Instr → Prop
  | [] => True
  | .wakeScheduler :: _ => False
  | .waitForScheduler :: code => .notifyTemplateThread ∉ code
  | .notifyTemplateThread :: code =>
    .notifyTemplateThread ∉ code ∧ .waitForScheduler ∈ code ∧ ChecksIn code
  | _ :: code => ChecksIn code

/-- What a wrapper does after the operation has been described and let run does not check in. -/
theorem ChecksIn.append (h : ChecksIn code) (hwait : .waitForScheduler ∈ code)
    (hrest : .notifyTemplateThread ∉ rest) : ChecksIn (code ++ rest) := by
  induction code with
  | nil => cases hwait
  | cons instr code ih =>
    cases instr with
    | wakeScheduler => exact h
    | waitForScheduler =>
      intro hmem
      exact (List.mem_append.mp hmem).elim h hrest
    | notifyTemplateThread =>
      obtain ⟨hnot, hwait', hcode⟩ := h
      refine ⟨fun hmem => (List.mem_append.mp hmem).elim hnot hrest,
        List.mem_append_left rest hwait', ih hcode hwait'⟩
    | write | rest | waitForBranch | waitForExitPermission | lib | create | assert | stop =>
      exact ih h (by simpa using hwait)

theorem notMem_threadWakeSchedulerAndWait :
    Instr.notifyTemplateThread ∉ threadWakeSchedulerAndWait := by
  simp [threadWakeSchedulerAndWait, threadAwaitScheduler]

theorem checksIn_threadHandleAfterDmtcpRestart (h : mode.isInRestartMode = true) :
    ChecksIn (threadHandleAfterDmtcpRestart mode) ∧
      .waitForScheduler ∈ threadHandleAfterDmtcpRestart mode := by
  cases mode with
  | targetBranch | targetBranchAfterRestart => cases h
  | dmtcpRestartIntoBranch | dmtcpRestartIntoTemplate =>
    simp [threadHandleAfterDmtcpRestart, threadAwaitScheduler, ChecksIn]

/-- A first round which checks in, and what follows it. -/
theorem checksIn_round {contents : MailboxContents} (h : mode.isInRestartMode = true)
    (hrest : .notifyTemplateThread ∉ rest) :
    ChecksIn (.write contents :: (threadHandleAfterDmtcpRestart mode ++ rest)) := by
  obtain ⟨hcode, hwait⟩ := checksIn_threadHandleAfterDmtcpRestart h
  exact hcode.append hwait hrest

theorem checksIn_visibleOperation {contents : MailboxContents} (h : mode.isInRestartMode = true)
    (hrest : .notifyTemplateThread ∉ rest) :
    ChecksIn (visibleOperation mode contents ++ rest) := by
  rw [visibleOperation, if_pos h]
  exact checksIn_round h hrest

theorem notMem_visibleOperation {contents : MailboxContents} (h : mode.isInRestartMode = false) :
    Instr.notifyTemplateThread ∉ visibleOperation mode contents := by
  simp [visibleOperation, h, notMem_threadWakeSchedulerAndWait]

theorem notMem_realJoin {handle : Addr} {entry : Option PthreadMapEntry} :
    Instr.notifyTemplateThread ∉ realJoin mode handle entry := by
  cases mode with
  | targetBranchAfterRestart =>
    rw [realJoin]
    split_ifs <;> simp
  | targetBranch | dmtcpRestartIntoBranch | dmtcpRestartIntoTemplate => simp [realJoin]

theorem notMem_mcExitThreadInChild : Instr.notifyTemplateThread ∉ mcExitThreadInChild := by
  simp [mcExitThreadInChild, notMem_threadWakeSchedulerAndWait]

theorem notMem_mcExitMainThreadInChild :
    Instr.notifyTemplateThread ∉ mcExitMainThreadInChild t := by
  rw [mcExitMainThreadInChild]
  split_ifs <;> simp [notMem_threadWakeSchedulerAndWait]

theorem notMem_libcExit : Instr.notifyTemplateThread ∉ libcExit t := by
  rw [libcExit]
  split_ifs <;> simp [notMem_mcExitMainThreadInChild]

theorem checksIn_code (c : Call) (h : mode.isInRestartMode = true) : ChecksIn (c.code t mode) := by
  cases c with
  | mutexInit mutex normal =>
    have hcode : ChecksIn (visibleOperation mode (.mutexInit mutex) ++ [.lib (.mutexInit mutex)]) :=
      checksIn_visibleOperation h (by simp)
    exact hcode
  | mutexLock | mutexUnlock | semInit | semPost | semWait | semDestroy =>
    exact checksIn_visibleOperation h (by simp)
  | condInit | condSignal | condBroadcast | condDestroy =>
    have hcode : ∀ contents, ChecksIn (visibleOperation mode contents ++ []) :=
      fun _ => checksIn_visibleOperation h (by simp)
    simp only [List.append_nil] at hcode
    exact hcode _
  | condWait =>
    rw [Call.code, mcPthreadCondWait, List.append_assoc, List.append_assoc]
    exact checksIn_visibleOperation h (by simp [notMem_threadWakeSchedulerAndWait])
  | sleep => trivial
  | create =>
    rw [Call.code, mcPthreadCreate, if_pos h]
    trivial
  | join => exact checksIn_visibleOperation h notMem_realJoin
  | pthreadExit =>
    rw [Call.code, mcPthreadExit, checkInFirst, if_pos h, List.append_assoc]
    refine checksIn_round h ?_
    split_ifs <;> simp [notMem_mcExitMainThreadInChild, notMem_mcExitThreadInChild]
  | exit =>
    simp only [Call.code, mcTransparentExit, checkInFirst, if_pos h, List.append_assoc, List.cons_append]
    exact checksIn_round h (by simp [notMem_threadWakeSchedulerAndWait, notMem_libcExit])
  | abort =>
    simp only [Call.code, mcTransparentAbort, checkInFirst, if_pos h, List.append_assoc, List.cons_append]
    exact checksIn_round h (by simp [notMem_threadWakeSchedulerAndWait])
  | returns =>
    rw [Call.code, mcThreadRoutineReturn, if_pos h, List.append_assoc]
    exact checksIn_round h (by simp [threadAwaitScheduler])

theorem notMem_code (c : Call) (h : mode.isInRestartMode = false) :
    Instr.notifyTemplateThread ∉ c.code t mode := by
  have hround : ∀ contents, Instr.notifyTemplateThread ∉ visibleOperation mode contents :=
    fun _ => notMem_visibleOperation h
  cases c with
  | mutexInit => simp [Call.code, mcPthreadMutexInit, hround]
  | mutexLock => simp [Call.code, mcPthreadMutexLock, hround]
  | mutexUnlock => simp [Call.code, mcPthreadMutexUnlock, hround]
  | semInit => simp [Call.code, mcSemInit, hround]
  | semPost => simp [Call.code, mcSemPost, hround]
  | semWait => simp [Call.code, mcSemWait, hround]
  | semDestroy => simp [Call.code, mcSemDestroy, hround]
  | condInit | condSignal | condBroadcast | condDestroy => exact hround _
  | condWait => simp [Call.code, mcPthreadCondWait, hround, notMem_threadWakeSchedulerAndWait]
  | sleep => simp [Call.code]
  | create => simp [Call.code, mcPthreadCreate, h, notMem_threadWakeSchedulerAndWait]
  | join => simp [Call.code, mcPthreadJoin, hround, notMem_realJoin]
  | pthreadExit =>
    rw [Call.code, mcPthreadExit, checkInFirst, if_neg (by simp [h])]
    split_ifs <;> simp [notMem_mcExitMainThreadInChild, notMem_mcExitThreadInChild]
  | exit =>
    simp [Call.code, mcTransparentExit, checkInFirst, h, notMem_threadWakeSchedulerAndWait,
      notMem_libcExit]
  | abort =>
    simp [Call.code, mcTransparentAbort, checkInFirst, h, notMem_threadWakeSchedulerAndWait]
  | returns => simp [Call.code, mcThreadRoutineReturn, h, notMem_mcExitThreadInChild]
structure CheckIns (s : State) : Prop where
  /-- After a restart, no thread has been let run. -/
  restart : s.mode.isInRestartMode = true →
    s.childSideSem = 0 ∧ s.modelSideSem = 0 ∧ s.executing = false ∧ ChecksIn s.code
  /-- A thread which has checked in does not come back to the program. -/
  checkedIn : s.mode.isInRestartMode = true → s.hasCheckedIn = true →
    .notifyTemplateThread ∉ s.code ∧
      (.waitForScheduler ∈ s.code ∨ s.code.getLast? = some .stop)
  normal : s.mode.isInRestartMode = false → .notifyTemplateThread ∉ s.code

theorem checkIns_start (mode : Mode) : CheckIns (start mode) := by
  refine ⟨fun h => ?_, fun _ h => absurd h Bool.false_ne_true, fun h => ?_⟩
  · have hmode : mode.isInRestartMode = true := h
    exact ⟨rfl, rfl, rfl, by simp [start, mcThreadRoutineStart, hmode, ChecksIn]⟩
  · have hmode : mode.isInRestartMode = false := h
    simp [start, mcThreadRoutineStart, hmode, threadAwaitScheduler]

/-- The thread which is stopped has nothing else to do. -/
theorem getLast?_of_advances {instr : Instr} (h : Advances s s' instr code)
    (hlast : s.code.getLast? = some .stop) : s'.code.getLast? = some .stop := by
  rcases h.code_eq_or with hcode | hcode
  · rw [h.code_eq, List.getLast?_cons] at hlast
    rw [hcode]
    cases hrest : code.getLast? with
    | none =>
      rw [hrest] at hlast
      exact absurd (Option.some.inj hlast) h.ne_stop
    | some last =>
      rw [hrest] at hlast
      exact hlast
  · rw [hcode]
    rfl

theorem CheckIns.advance {instr : Instr} (h : CheckIns s) (hadv : Advances s s' instr code) :
    CheckIns s' := by
  have hsub : ∀ i, i ∈ s'.code → i ∈ code ∨ i = .rest .ends ∨ i = .stop := by
    intro i hi
    rcases hadv.code_eq_or with hcode | hcode
    · exact .inl (hcode ▸ hi)
    · exact .inr (by simpa [hcode] using hi)
  have hnot : .notifyTemplateThread ∉ code → .notifyTemplateThread ∉ s'.code := by
    intro hnot hmem
    rcases hsub _ hmem with hmem | hmem | hmem
    · exact hnot hmem
    · cases hmem
    · cases hmem
  -- in a restart mode there is no permit: the thread is on its way to the check-in
  have hrestart : s.mode.isInRestartMode = true → instr ≠ .waitForScheduler ∧
      instr ≠ .wakeScheduler ∧ ChecksIn code ∧ (instr = .notifyTemplateThread →
        .notifyTemplateThread ∉ code ∧ .waitForScheduler ∈ code) := by
    intro hmode
    obtain ⟨hchild, -, -, hcode⟩ := h.restart hmode
    rw [hadv.code_eq] at hcode
    have hwait : instr ≠ .waitForScheduler := by
      intro hinstr
      have := (hadv.permit hinstr).1
      omega
    refine ⟨hwait, ?_⟩
    cases instr with
    | wakeScheduler => exact hcode.elim
    | waitForScheduler => exact absurd rfl hwait
    | notifyTemplateThread => exact ⟨nofun, hcode.2.2, fun _ => ⟨hcode.1, hcode.2.1⟩⟩
    | write | rest | waitForBranch | waitForExitPermission | lib | create | assert | stop =>
      exact ⟨nofun, hcode, nofun⟩
  refine ⟨fun hmode => ?_, fun hmode hchecked => ?_, fun hmode => ?_⟩
  · rw [hadv.mode] at hmode
    obtain ⟨hwait, hwake, hcode, -⟩ := hrestart hmode
    obtain ⟨hchild, hmodel, hexecuting, -⟩ := h.restart hmode
    refine ⟨?_, ?_, ?_, ?_⟩
    · rw [hadv.childSideSem hwait, hchild]
    · rw [hadv.modelSideSem hwake, hmodel]
    · rw [hadv.executing, hexecuting]
    · rcases hadv.code_eq_or with heq | heq
      · rwa [heq]
      · rw [heq]
        trivial
  · rw [hadv.mode] at hmode
    obtain ⟨hwait, -, -, hnotify⟩ := hrestart hmode
    by_cases hinstr : instr = .notifyTemplateThread
    · obtain ⟨hnot', hmem⟩ := hnotify hinstr
      exact ⟨hnot hnot', .inl ((hadv.checksIn hinstr).2 ▸ hmem)⟩
    · rw [(hadv.pending hinstr).2] at hchecked
      obtain ⟨hnot', hmem⟩ := h.checkedIn hmode hchecked
      rw [hadv.code_eq, List.mem_cons, not_or] at hnot'
      refine ⟨hnot hnot'.2, ?_⟩
      rcases hmem with hmem | hlast
      · rw [hadv.code_eq] at hmem
        rcases hadv.code_eq_or with heq | heq
        · exact .inl (heq ▸ (List.mem_cons.mp hmem).resolve_left (Ne.symm hwait))
        · exact .inr (by rw [heq]; rfl)
      · exact .inr (getLast?_of_advances hadv hlast)
  · rw [hadv.mode] at hmode
    have hnot' := h.normal hmode
    rw [hadv.code_eq, List.mem_cons, not_or] at hnot'
    exact hnot hnot'.2

/-! ### Exits -/

/-- The thread has not begun to end. -/
structure Living (s : State) (exited : Bool) : Prop where
  writes : ∀ contents, .write contents ∈ s.code → exits contents = false
  mailbox : ∀ contents, s.mailbox = some contents → exits contents = false
  pending : ∀ contents, s.pending = some contents → exits contents = false
  exited : exited = false

/-- How many more reports McMini receives, at least, until the thread has exited in the model. -/
def receivesLeft (s : State) (exited : Bool) : ℕ :=
  if exited then 0 else if s.pending = some .threadExit then 1 else 2

/-- Before the thread has exited in the model, McMini gives as many permits as the thread waits
for. -/
structure Budgeted (s : State) (exited : Bool) : Prop where
  checkedIn : .notifyTemplateThread ∉ s.code
  waits : s.code.count .waitForScheduler + (if s.executing then 1 else 0) ≤
    s.childSideSem + receivesLeft s exited

/-- McMini waits for a report in vain. -/
structure Silent (s : State) (exited : Bool) : Prop where
  code : .wakeScheduler ∉ s.code
  modelSideSem : s.modelSideSem = 0
  exited : exited = false

/-- The main thread does not exit in the model by the end of a thread. -/
structure Barred (t : Thread) (s : State) (exited : Bool) : Prop where
  main : t.main = true
  executing : s.executing = true → s.pending ≠ some .threadExit
  exited : exited = false

/-- The thread is making the call by which it ends. -/
structure Ending (t : Thread) (s : State) (exited : Bool) : Prop where
  writes : ∀ n, .write (.processExit n) ∉ s.code
  mailbox : ∀ n, s.mailbox ≠ some (.processExit n)
  pending : ∀ n, s.pending ≠ some (.processExit n)
  bounded : Budgeted s exited ∨ Silent s exited ∨ Barred t s exited

/-- The invariant of a thread. -/
structure Lifetime (t : Thread) (s : State) (exited : Bool) : Prop where
  checkIns : CheckIns s
  retired : exited = true → s.retired = true ∧ s.executing = false
  life : Living s exited ∧ ¬ s.EndsThread ∨
    s.code.getLast? = some .stop ∧ (s.EndsThread → Ending t s exited)

theorem lifetime_start (mode : Mode) : Lifetime t (start mode) false := by
  refine ⟨checkIns_start mode, nofun, .inl ⟨⟨?_, nofun, nofun, rfl⟩, ?_⟩⟩
  · intro contents hmem
    have hmem' : Instr.write contents ∈ mcThreadRoutineStart mode := hmem
    rw [mcThreadRoutineStart] at hmem'
    split_ifs at hmem'
    · cases hmem'
    · simp [threadAwaitScheduler] at hmem'
  · rintro (h | h) <;> cases h

theorem Living.advance {instr : Instr} (h : Living s exited) (hadv : Advances s s' instr code) :
    Living s' exited := by
  have hwrites : ∀ contents, .write contents ∈ instr :: code → exits contents = false := by
    rw [← hadv.code_eq]
    exact h.writes
  refine ⟨fun contents hmem => ?_, fun contents hmailbox => ?_, fun contents hpending => ?_, h.exited⟩
  · rcases hadv.code_eq_or with heq | heq
    · exact hwrites contents (List.mem_cons_of_mem _ (heq ▸ hmem))
    · simp [heq] at hmem
  · rcases hadv.mailbox with heq | ⟨contents', rfl, heq⟩
    · exact h.mailbox contents (heq ▸ hmailbox)
    · obtain rfl : contents' = contents := Option.some.inj (heq.symm.trans hmailbox)
      exact hwrites contents' (List.mem_cons_self ..)
  · by_cases hinstr : instr = .notifyTemplateThread
    · exact h.mailbox contents ((hadv.checksIn hinstr).1 ▸ hpending)
    · exact h.pending contents ((hadv.pending hinstr).1 ▸ hpending)

theorem Ending.advance {instr : Instr} (h : Ending t s exited) (hcheck : CheckIns s)
    (hadv : Advances s s' instr code) : Ending t s' exited := by
  obtain ⟨hwrites, hmailbox, hpending, hbounded⟩ := h
  rw [hadv.code_eq] at hwrites
  refine ⟨fun n hmem => ?_, fun n => ?_, fun n => ?_, ?_⟩
  · rcases hadv.code_eq_or with heq | heq
    · exact hwrites n (List.mem_cons_of_mem _ (heq ▸ hmem))
    · simp [heq] at hmem
  · rcases hadv.mailbox with heq | ⟨contents, rfl, heq⟩
    · exact heq ▸ hmailbox n
    · intro hexit
      obtain rfl : contents = .processExit n := Option.some.inj (heq.symm.trans hexit)
      exact hwrites n (List.mem_cons_self ..)
  · by_cases hinstr : instr = .notifyTemplateThread
    · exact (hadv.checksIn hinstr).1 ▸ hmailbox n
    · exact (hadv.pending hinstr).1 ▸ hpending n
  · rcases hbounded with hbudget | hsilent | hbarred
    · left
      have hnot := hbudget.checkedIn
      rw [hadv.code_eq, List.mem_cons, not_or] at hnot
      have hleft : receivesLeft s' exited = receivesLeft s exited := by
        rw [receivesLeft, receivesLeft, (hadv.pending (Ne.symm hnot.1)).1]
      have hwaits := hbudget.waits
      rw [hadv.code_eq, List.count_cons] at hwaits
      refine ⟨?_, ?_⟩
      · rcases hadv.code_eq_or with heq | heq
        · exact heq ▸ hnot.2
        · simp [heq]
      · rw [hleft, hadv.executing]
        by_cases hinstr : instr = .waitForScheduler
        · obtain ⟨hchild, heq⟩ := hadv.permit hinstr
          simp only [hinstr, BEq.rfl, if_true] at hwaits
          rw [heq]
          omega
        · rw [hadv.childSideSem hinstr]
          rcases hadv.code_eq_or with heq | heq
          · rw [heq]
            omega
          · rw [heq]
            have hzero : [Instr.rest .ends, .stop].count .waitForScheduler = 0 := by decide
            omega
    · right; left
      have hnot := hsilent.code
      rw [hadv.code_eq, List.mem_cons, not_or] at hnot
      refine ⟨?_, ?_, hsilent.exited⟩
      · rcases hadv.code_eq_or with heq | heq
        · exact heq ▸ hnot.2
        · simp [heq]
      · rw [hadv.modelSideSem (Ne.symm hnot.1), hsilent.modelSideSem]
    · right; right
      refine ⟨hbarred.main, fun hexecuting => ?_, hbarred.exited⟩
      rw [hadv.executing] at hexecuting
      -- McMini executes no runner before the check-ins
      have hmode : s.mode.isInRestartMode = false := by
        by_contra hmode
        have hidle := (hcheck.restart (by simpa using hmode)).2.2.1
        exact Bool.false_ne_true (hidle.symm.trans hexecuting)
      have hnot := hcheck.normal hmode
      rw [hadv.code_eq, List.mem_cons, not_or] at hnot
      rw [(hadv.pending (Ne.symm hnot.1)).1]
      exact hbarred.executing hexecuting

/-! ### Calls -/

/-- What a list of instructions writes into the mailbox. -/
theorem write_mem_visibleOperation {contents contents' : MailboxContents}
    (h : .write contents ∈ visibleOperation mode contents') : contents = contents' := by
  rw [visibleOperation, List.mem_cons] at h
  rcases h with h | h
  · exact Instr.write.inj h
  · cases mode <;>
      simp [Mode.isInRestartMode, threadHandleAfterDmtcpRestart, threadWakeSchedulerAndWait,
        threadAwaitScheduler] at h

theorem write_notMem_threadWakeSchedulerAndWait {contents : MailboxContents} :
    Instr.write contents ∉ threadWakeSchedulerAndWait := by
  simp [threadWakeSchedulerAndWait, threadAwaitScheduler]

theorem write_notMem_realJoin {contents : MailboxContents} {handle : Addr}
    {entry : Option PthreadMapEntry} : Instr.write contents ∉ realJoin mode handle entry := by
  cases mode with
  | targetBranchAfterRestart =>
    rw [realJoin]
    split_ifs <;> simp
  | targetBranch | dmtcpRestartIntoBranch | dmtcpRestartIntoTemplate => simp [realJoin]

/-- A call which does not end the thread or the process. -/
def Call.goesOn : Call → Bool
  | .pthreadExit | .returns | .exit _ | .abort => false
  | _ => true

theorem exits_of_write_mem_code {c : Call} {contents : MailboxContents} (hc : c.goesOn = true)
    (h : .write contents ∈ c.code t mode) : exits contents = false := by
  have hround : ∀ contents', .write contents ∈ visibleOperation mode contents' →
      exits contents' = false → exits contents = false := by
    intro contents' hmem hexits
    rwa [write_mem_visibleOperation hmem]
  have hlib : ∀ contents' f, .write contents ∈ visibleOperation mode contents' ++ [.lib f] →
      exits contents' = false → exits contents = false := by
    intro contents' f hmem hexits
    exact hround contents' (by simpa using hmem) hexits
  cases c with
  | mutexInit =>
    rcases List.mem_cons.mp h with h | h
    · cases h
    · exact hlib _ _ h rfl
  | mutexLock | mutexUnlock | semInit | semPost | semWait | semDestroy => exact hlib _ _ h rfl
  | condInit | condSignal | condBroadcast | condDestroy => exact hround _ h rfl
  | condWait cond mutex isStatic =>
    simp only [Call.code, mcPthreadCondWait, List.mem_append, List.mem_cons, List.not_mem_nil,
      or_false, reduceCtorEq, false_or, write_notMem_threadWakeSchedulerAndWait] at h
    rcases h with h | h
    · exact hround _ h rfl
    · rw [Instr.write.inj h]
      rfl
  | sleep => cases h
  | create thread =>
    rw [Call.code, mcPthreadCreate] at h
    split_ifs at h
    · simp at h
    · simp only [List.mem_cons, reduceCtorEq, false_or,
        write_notMem_threadWakeSchedulerAndWait, or_false] at h
      rw [Instr.write.inj h]
      rfl
  | join =>
    simp only [Call.code, mcPthreadJoin, List.mem_append, write_notMem_realJoin, or_false] at h
    exact hround _ h rfl
  | pthreadExit | exit | abort | returns => cases hc

/-- The others do not come back to the program. -/
theorem getLast?_code {c : Call} (hc : c.goesOn = false) :
    (c.code t mode).getLast? = some .stop := by
  have hend : ∀ code, (code ++ [Instr.rest .ends, .stop]).getLast? = some .stop := by simp
  cases c with
  | pthreadExit => exact hend _
  | exit =>
    rw [Call.code, mcTransparentExit, libcExit, ← List.append_assoc]
    exact hend _
  | abort => exact hend _
  | returns =>
    rw [Call.code, mcThreadRoutineReturn]
    split_ifs
    · exact hend _
    · exact hend _
  | _ => cases hc

/-- The exit of another thread than the main thread needs one permit. -/
theorem count_mcExitThreadInChild :
    (mcExitThreadInChild ++ [Instr.rest .ends, .stop]).count Instr.waitForScheduler = 1 := by
  decide

/-- After a restart, the return from the start routine reports nothing. -/
theorem notMem_mcThreadRoutineReturn (h : mode.isInRestartMode = true) :
    .wakeScheduler ∉ mcThreadRoutineReturn mode := by
  cases mode with
  | targetBranch | targetBranchAfterRestart => cases h
  | dmtcpRestartIntoBranch | dmtcpRestartIntoTemplate => decide

/-- The exit of a thread is described, but not the one of the process. -/
theorem write_notMem_code {c : Call} (hc : c = .returns ∨ c = .pthreadExit) (n : ℤ) :
    .write (.processExit n) ∉ c.code t mode := by
  have hround := @write_notMem_threadWakeSchedulerAndWait (.processExit n)
  have hcheck : .write (.processExit n) ∉ threadHandleAfterDmtcpRestart mode := by
    cases mode <;> simp [threadHandleAfterDmtcpRestart, threadAwaitScheduler]
  have hchild : .write (.processExit n) ∉ mcExitThreadInChild := by
    simp [mcExitThreadInChild, hround]
  have hmain : .write (.processExit n) ∉ mcExitMainThreadInChild t := by
    rw [mcExitMainThreadInChild]
    split_ifs <;> simp [hround]
  rcases hc with rfl | rfl
  · rw [Call.code, mcThreadRoutineReturn]
    split_ifs <;> simp [hcheck, hchild, threadAwaitScheduler]
  · rw [Call.code, mcPthreadExit, checkInFirst]
    split_ifs <;> simp [hcheck, hchild, hmain]

/-- The call by which a thread ends. -/
theorem Living.ending {c : Call} {s' : State} (h : Living s exited) (hcheck : CheckIns s)
    (hc : c = .returns ∧ t.main = false ∨
      c = .pthreadExit ∧ (t.main = false → s.mode.isInRestartMode = false))
    (hs' : s' = { s with code := c.code t s.mode, log := s.log ++ [.call c] }) :
    Ending t s' exited := by
  subst hs'
  have hends : c = .returns ∨ c = .pthreadExit := hc.imp And.left And.left
  refine ⟨write_notMem_code hends, fun n hmailbox => ?_, fun n hpending => ?_, ?_⟩
  · cases h.mailbox _ hmailbox
  · cases h.pending _ hpending
  have hnotYet : s.pending ≠ some .threadExit := fun hpending => nomatch h.pending _ hpending
  -- two reports are to come, and one permit is waited for
  have hbudget : s.mode.isInRestartMode = false →
      c.code t s.mode = mcExitThreadInChild ++ [.rest .ends, .stop] →
      Budgeted { s with code := c.code t s.mode, log := s.log ++ [.call c] } exited := by
    intro hmode hcode
    refine ⟨notMem_code c hmode, ?_⟩
    have hleft : receivesLeft { s with code := c.code t s.mode, log := s.log ++ [.call c] } exited =
        2 := by
      rw [receivesLeft, if_neg (by simp [h.exited]), if_neg hnotYet]
    have hcount : (c.code t s.mode).count .waitForScheduler = 1 := by
      rw [hcode, count_mcExitThreadInChild]
    rw [hleft]
    simp only [hcount]
    split_ifs <;> omega
  rcases hc with ⟨rfl, hmain⟩ | ⟨rfl, hmode⟩
  · by_cases hmode : s.mode.isInRestartMode = true
    · exact .inr (.inl ⟨notMem_mcThreadRoutineReturn hmode, (hcheck.restart hmode).2.1, h.exited⟩)
    · rw [Bool.not_eq_true] at hmode
      refine .inl (hbudget hmode ?_)
      rw [Call.code, mcThreadRoutineReturn, if_neg (by simp [hmode])]
  · cases hmain : t.main with
    | true => exact .inr (.inr ⟨hmain, fun _ => hnotYet, h.exited⟩)
    | false =>
      refine .inl (hbudget (hmode hmain) ?_)
      rw [Call.code, mcPthreadExit, checkInFirst, if_neg (by simp [hmode hmain]), hmain]
      rfl

/-! ### Steps -/

theorem endsThread_call {c : Call} {s' : State} (hs' : s'.log = s.log ++ [.call c]) :
    s'.EndsThread ↔ c = .returns ∨ c = .pthreadExit := by
  rw [State.EndsThread, State.currentCall, hs', progress_concat]
  simp

theorem endsThread_congr (h : s'.currentCall = s.currentCall) : s'.EndsThread ↔ s.EndsThread := by
  rw [State.EndsThread, State.EndsThread, h]

theorem CheckIns.call {c : Call} (h : CheckIns s) (hin : s.code = []) :
    CheckIns { s with code := c.code t s.mode, log := s.log ++ [.call c] } := by
  refine ⟨fun hmode => ?_, fun hmode hchecked => ?_, fun hmode => notMem_code c hmode⟩
  · obtain ⟨hchild, hmodel, hexecuting, -⟩ := h.restart hmode
    exact ⟨hchild, hmodel, hexecuting, checksIn_code c hmode⟩
  · have hchecked' : s.hasCheckedIn = true := by simpa [State.hasCheckedIn] using hchecked
    obtain ⟨-, hmem⟩ := h.checkedIn hmode hchecked'
    rw [hin] at hmem
    rcases hmem with hmem | hmem
    · cases hmem
    · cases hmem

/-- The thread hangs for good. -/
theorem CheckIns.hang (h : CheckIns s) : CheckIns { s with code := [.rest .blocks, .stop] } := by
  refine ⟨fun hmode => ?_, fun _ _ => ⟨by simp, .inr rfl⟩, fun _ => by simp⟩
  obtain ⟨hchild, hmodel, hexecuting, -⟩ := h.restart hmode
  exact ⟨hchild, hmodel, hexecuting, trivial⟩

theorem Lifetime.call {c : Call} (h : Lifetime t s exited) (hin : s.code = [])
    (hmain : ¬ (c = .returns ∧ t.main = true))
    (hfirst : c = .pthreadExit → t.main = false → s.mode.isInRestartMode = false) :
    Lifetime t { s with code := c.code t s.mode, log := s.log ++ [.call c] } exited := by
  refine ⟨h.checkIns.call hin, h.retired, ?_⟩
  rcases h.life with ⟨hliving, -⟩ | ⟨hlast, -⟩
  · cases hc : c.goesOn with
    | true =>
      refine .inl ⟨⟨fun _ hmem => exits_of_write_mem_code hc hmem, hliving.mailbox,
        hliving.pending, hliving.exited⟩, ?_⟩
      rw [endsThread_call rfl]
      rintro (rfl | rfl)
      · cases hc
      · cases hc
    | false =>
      refine .inr ⟨getLast?_code hc, fun hends => ?_⟩
      rw [endsThread_call rfl] at hends
      refine hliving.ending h.checkIns (hends.imp (fun heq => ⟨heq, ?_⟩) fun heq => ⟨heq, ?_⟩) rfl
      · exact Bool.eq_false_of_not_eq_true fun htrue => hmain ⟨heq, htrue⟩
      · exact hfirst heq
  · rw [hin] at hlast
    cases hlast

theorem Lifetime.advance (h : Lifetime t s exited) (hstep : s.advance = some s') :
    Lifetime t s' exited := by
  obtain ⟨instr, code, hadv⟩ := exists_advances hstep
  refine ⟨h.checkIns.advance hadv, ?_, ?_⟩
  · rw [hadv.retired, hadv.executing]
    exact h.retired
  · rw [endsThread_congr hadv.currentCall]
    rcases h.life with ⟨hliving, hends⟩ | ⟨hlast, hending⟩
    · exact .inl ⟨hliving.advance hadv, hends⟩
    · exact .inr ⟨getLast?_of_advances hadv hlast,
        fun hends => (hending hends).advance h.checkIns hadv⟩

theorem Lifetime.hang (h : Lifetime t s exited) :
    Lifetime t { s with code := [.rest .blocks, .stop] } exited := by
  refine ⟨h.checkIns.hang, h.retired, ?_⟩
  rcases h.life with ⟨⟨-, hmailbox, hpending, hexited⟩, hends⟩ | ⟨-, hending⟩
  · exact .inl ⟨⟨by simp, hmailbox, hpending, hexited⟩, hends⟩
  · refine .inr ⟨rfl, fun hends => ?_⟩
    obtain ⟨-, hmailbox, hpending, hbounded⟩ := hending hends
    refine ⟨by simp, hmailbox, hpending, ?_⟩
    rcases hbounded with ⟨-, hwaits⟩ | ⟨-, hmodel, hexited⟩ | ⟨hmain, hexecuting, hexited⟩
    · refine .inl ⟨by simp, ?_⟩
      have hzero : [Instr.rest .blocks, .stop].count .waitForScheduler = 0 := by decide
      have hleft : receivesLeft { s with code := [.rest .blocks, .stop] } exited =
          receivesLeft s exited := rfl
      rw [hzero, hleft]
      exact (Nat.add_le_add_right (Nat.zero_le _) _).trans hwaits
    · exact .inr (.inl ⟨by simp, hmodel, hexited⟩)
    · exact .inr (.inr ⟨hmain, hexecuting, hexited⟩)

theorem Lifetime.changeMode (h : Lifetime t s exited)
    (hin : s.code = [] ∨ s.hasCheckedIn = true) :
    Lifetime t { s with mode := .targetBranchAfterRestart } exited := by
  refine ⟨⟨nofun, nofun, fun _ => ?_⟩, h.retired, ?_⟩
  · cases hmode : s.mode.isInRestartMode with
    | false => exact h.checkIns.normal hmode
    | true =>
      rcases hin with hin | hchecked
      · exact hin ▸ List.not_mem_nil
      · exact (h.checkIns.checkedIn hmode hchecked).1
  · rcases h.life with ⟨⟨hwrites, hmailbox, hpending, hexited⟩, hends⟩ | ⟨hlast, hending⟩
    · exact .inl ⟨⟨hwrites, hmailbox, hpending, hexited⟩, hends⟩
    · refine .inr ⟨hlast, fun hends => ?_⟩
      obtain ⟨hwrites, hmailbox, hpending, hbounded⟩ := hending hends
      refine ⟨hwrites, hmailbox, hpending, hbounded.imp ?_ (Or.imp ?_ ?_)⟩
      · exact fun hbudget => ⟨hbudget.checkedIn, hbudget.waits⟩
      · exact fun hsilent => ⟨hsilent.code, hsilent.modelSideSem, hsilent.exited⟩
      · exact fun hbarred => ⟨hbarred.main, hbarred.executing, hbarred.exited⟩

theorem Lifetime.executeRunner (h : Lifetime t s exited)
    (hmode : ¬ s.mode.isInRestartMode = true) (hexecuting : ¬ s.executing = true)
    (hretired : ¬ s.retired = true) (hgrants : t.main = true → s.pending ≠ some .threadExit) :
    Lifetime t { s with
      executing := true
      childSideSem := s.childSideSem + 1
      log := s.log ++ [.executeRunner] } exited := by
  have hcall : State.EndsThread { s with
      executing := true
      childSideSem := s.childSideSem + 1
      log := s.log ++ [.executeRunner] } ↔ s.EndsThread :=
    endsThread_congr (currentCall_concat (by simp))
  refine ⟨⟨fun hrestart => absurd hrestart hmode, fun hrestart => absurd hrestart hmode,
    h.checkIns.normal⟩, fun hexited => absurd (h.retired hexited).1 hretired, ?_⟩
  rw [hcall]
  rcases h.life with ⟨⟨hwrites, hmailbox, hpending, hexited⟩, hends⟩ | ⟨hlast, hending⟩
  · exact .inl ⟨⟨hwrites, hmailbox, hpending, hexited⟩, hends⟩
  · refine .inr ⟨hlast, fun hends => ?_⟩
    obtain ⟨hwrites, hmailbox, hpending, hbounded⟩ := hending hends
    refine ⟨hwrites, hmailbox, hpending, ?_⟩
    rcases hbounded with ⟨hchecked, hwaits⟩ | ⟨hcode, hmodel, hexited⟩ | ⟨hmain, -, hexited⟩
    · refine .inl ⟨hchecked, ?_⟩
      rw [if_neg hexecuting] at hwaits
      change s.code.count .waitForScheduler + 1 ≤ s.childSideSem + 1 + receivesLeft s exited
      omega
    · exact .inr (.inl ⟨hcode, hmodel, hexited⟩)
    · exact .inr (.inr ⟨hmain, fun _ => hgrants hmain, hexited⟩)

theorem Lifetime.receive (h : Lifetime t s exited) (hexecuting : s.executing = true)
    (hreport : 0 < s.modelSideSem) :
    Lifetime t { s with
      executing := false
      modelSideSem := s.modelSideSem - 1
      pending := s.mailbox
      retired := s.pending.any exits
      log := s.log ++ [.returned s.mailbox] } (exited || s.pending.any exits) := by
  have hexited : exited = false := by
    by_contra hexited
    have hidle := (h.retired (by simpa using hexited)).2
    exact Bool.false_ne_true (hidle.symm.trans hexecuting)
  subst hexited
  rw [Bool.false_or]
  have hmode : s.mode.isInRestartMode = false := by
    by_contra hmode
    have hidle := (h.checkIns.restart (by simpa using hmode)).2.2.1
    exact Bool.false_ne_true (hidle.symm.trans hexecuting)
  have hcall : State.EndsThread { s with
      executing := false
      modelSideSem := s.modelSideSem - 1
      pending := s.mailbox
      retired := s.pending.any exits
      log := s.log ++ [.returned s.mailbox] } ↔ s.EndsThread :=
    endsThread_congr (currentCall_concat (by simp))
  refine ⟨⟨fun hrestart => ?_, fun hrestart => ?_, h.checkIns.normal⟩, fun hexits => ?_, ?_⟩
  · exact absurd (hmode.symm.trans hrestart) Bool.false_ne_true
  · exact absurd (hmode.symm.trans hrestart) Bool.false_ne_true
  · exact ⟨by simp [hexits], rfl⟩
  rw [hcall]
  rcases h.life with ⟨⟨hwrites, hmailbox, hpending, -⟩, hends⟩ | ⟨hlast, hending⟩
  · refine .inl ⟨⟨hwrites, hmailbox, hmailbox, ?_⟩, hends⟩
    cases hp : s.pending with
    | none => rfl
    | some contents => exact hpending contents hp
  · refine .inr ⟨hlast, fun hends => ?_⟩
    obtain ⟨hwrites, hmailbox, hpending, hbounded⟩ := hending hends
    -- the thread exits in the model when its exit was pending
    have hexits : s.pending.any exits = true ↔ s.pending = some .threadExit := by
      cases hp : s.pending with
      | none => simp
      | some contents =>
        cases contents with
        | processExit n => exact absurd hp (hpending n)
        | _ => simp [exits]
    refine ⟨hwrites, hmailbox, hmailbox, ?_⟩
    rcases hbounded with ⟨hchecked, hwaits⟩ | ⟨-, hmodel, -⟩ | ⟨hmain, hnot, -⟩
    · refine .inl ⟨hchecked, ?_⟩
      rw [if_pos hexecuting] at hwaits
      change s.code.count .waitForScheduler + 0 ≤ s.childSideSem + _
      by_cases hp : s.pending = some .threadExit
      · have hone : receivesLeft s false = 1 := by
          rw [receivesLeft, if_neg Bool.false_ne_true, if_pos hp]
        omega
      · have htwo : receivesLeft s false = 2 := by
          rw [receivesLeft, if_neg Bool.false_ne_true, if_neg hp]
        rw [receivesLeft, if_neg (by rwa [hexits])]
        split_ifs <;> omega
    · omega
    · exact .inr (.inr ⟨hmain, nofun, Bool.eq_false_of_not_eq_true (by
        rw [hexits]
        exact hnot hexecuting)⟩)

/-- What a step does to the thread which takes it. -/
theorem Lifetime.step (h : Lifetime t s exited) (hstep : TargetThread.step t a s = some s')
    (hfirst : a = .call .pthreadExit → t.main = false → s.mode.isInRestartMode = false)
    (hgrants : a = .executeRunner → t.main = true → s.pending ≠ some .threadExit) :
    Lifetime t s' (if a = .receive then exited || s.pending.any exits else exited) := by
  cases a with
  | call c =>
    obtain ⟨⟨hin, hmain⟩, hs'⟩ := Option.ite_none_right_eq_some.mp hstep
    obtain rfl := Option.some.inj hs'
    exact h.call hin hmain fun heq => hfirst (by rw [heq])
  | advance => exact h.advance hstep
  | createFails =>
    rw [TargetThread.step] at hstep
    split at hstep
    · obtain rfl := Option.some.inj hstep
      exact h.hang
    · cases hstep
  | hangs =>
    rw [TargetThread.step] at hstep
    split at hstep
    · obtain ⟨-, hs'⟩ := Option.ite_none_right_eq_some.mp hstep
      obtain rfl := Option.some.inj hs'
      exact h.hang
    · cases hstep
  | changeMode =>
    obtain ⟨⟨-, hin⟩, hs'⟩ := Option.ite_none_right_eq_some.mp hstep
    obtain rfl := Option.some.inj hs'
    exact h.changeMode hin
  | executeRunner =>
    obtain ⟨⟨hmode, hexecuting, hretired⟩, hs'⟩ := Option.ite_none_right_eq_some.mp hstep
    obtain rfl := Option.some.inj hs'
    exact h.executeRunner hmode hexecuting hretired (hgrants rfl)
  | receive =>
    obtain ⟨⟨hexecuting, hreport⟩, hs'⟩ := Option.ite_none_right_eq_some.mp hstep
    obtain rfl := Option.some.inj hs'
    exact h.receive hexecuting hreport

end TargetThread

namespace TargetProcess

open TargetThread

variable {s s' : State} {p q : RunnerId} {st st' : TargetThread.State}

/-! ### The process -/

def Lifetimes (s : State) : Prop :=
  ∀ p st, s.thread p = some st → Lifetime (s.kind p) st (s.exited p)

theorem mem_threads_of_thread (h : s.thread p = some st) : some st ∈ s.threads := by
  have hget : s.threads[p]? = some (some st) := Option.join_eq_some_iff.mp h
  exact List.mem_of_getElem? hget

theorem State.Initial.lifetimes (h : s.Initial) : Lifetimes s := by
  intro p st hp
  rw [h.exited p st hp, h.threads st (mem_threads_of_thread hp)]
  exact lifetime_start s.mode

/-- The thread which takes a step. -/
theorem thread_setThread (h : s.thread p = some st) :
    (s.setThread p st').thread q = if q = p then some st' else s.thread q := by
  have hget : s.threads[p]? = some (some st) := Option.join_eq_some_iff.mp h
  obtain ⟨hlt, -⟩ := List.getElem?_eq_some_iff.mp hget
  by_cases hq : q = p
  · subst hq
    rw [if_pos rfl, State.thread, State.setThread, List.getElem?_set_self hlt]
    rfl
  · rw [if_neg hq, State.thread, State.setThread, List.getElem?_set_ne (Ne.symm hq)]
    rfl

/-- A step changes the runners which have exited when McMini takes a report. -/
theorem effect_exited {a : TargetThread.Action} :
    (s.effect p st a).threads = s.threads ∧ (s.effect p st a).atExit = s.atExit ∧
      (s.effect p st a).exited = if a = .receive then
        Function.update s.exited p (s.exited p || st.pending.any exits) else s.exited := by
  cases a with
  | advance =>
    rw [State.effect, State.execute, if_neg (by simp)]
    split <;> exact ⟨rfl, rfl, rfl⟩
  | call | createFails | hangs | changeMode | executeRunner | receive => exact ⟨rfl, rfl, rfl⟩

theorem Lifetimes.thread {a : TargetThread.Action} (h : Lifetimes s)
    (hfirst : exitsFirst s (.thread p a) = false) (hstep : step (.thread p a) s = some s') :
    Lifetimes s' := by
  obtain ⟨st, hp, hstep⟩ := Option.bind_eq_some_iff.mp hstep
  obtain ⟨hallows, hstep⟩ := Option.ite_none_right_eq_some.mp hstep
  obtain ⟨st', hst', rfl⟩ := Option.map_eq_some_iff.mp hstep
  obtain ⟨hthreads, hatExit, hexited⟩ := @effect_exited s p st a
  have hthread : ∀ q, (s.effect p st a).thread q = s.thread q := by
    intro q
    rw [State.thread, hthreads]
    rfl
  have hkind : ∀ q, ((s.effect p st a).setThread p st').kind q = s.kind q := by
    intro q
    exact congrArg (TargetThread.Thread.mk _) hatExit
  have hexited' : ((s.effect p st a).setThread p st').exited = (s.effect p st a).exited := rfl
  intro q stq hq
  rw [thread_setThread ((hthread p).trans hp), hthread] at hq
  rw [hkind, hexited', hexited]
  by_cases hqp : q = p
  · subst hqp
    rw [if_pos rfl] at hq
    -- the thread itself: what it does fits its place in its life
    obtain rfl := Option.some.inj hq
    have hlife := (h q st hp).step hst' ?_ ?_
    · split_ifs at hlife ⊢ with ha
      · rwa [Function.update_self]
      · exact hlife
    · intro ha hmain
      by_contra hmode
      subst ha
      have hne : q ≠ ridMainThread := of_decide_eq_false hmain
      rw [exitsFirst, hp, Option.any_some, Bool.and_eq_false_iff] at hfirst
      rcases hfirst with hfirst | hfirst
      · exact of_decide_eq_false hfirst hne
      · exact hmode hfirst
    · intro ha hmain hpending
      subst ha
      have hmain' : q = ridMainThread := of_decide_eq_true hmain
      simp [State.allows, State.grants, hpending, hmain'] at hallows
  · rw [if_neg hqp] at hq
    split_ifs
    · rw [Function.update_of_ne hqp]
      exact h q stq hq
    · exact h q stq hq

theorem Lifetimes.changeMode (h : Lifetimes s) (hstep : step .changeMode s = some s') :
    Lifetimes s' := by
  obtain ⟨⟨-, hin⟩, hs'⟩ := Option.ite_none_right_eq_some.mp hstep
  obtain rfl := Option.some.inj hs'
  intro p st' hp
  have hget := Option.join_eq_some_iff.mp hp
  rw [List.getElem?_map, Option.map_eq_some_iff] at hget
  obtain ⟨st?, hget, hst'⟩ := hget
  obtain ⟨st, rfl, rfl⟩ := Option.map_eq_some_iff.mp hst'
  have hthread : s.thread p = some st := Option.join_eq_some_iff.mpr hget
  have hmem : st ∈ s.threads.reduceOption :=
    List.reduceOption_mem_iff.mpr (List.mem_of_getElem? hget)
  have hlife : Lifetime (s.kind p) st (s.exited p) := h p st hthread
  exact hlife.changeMode (hin st hmem)

theorem Lifetimes.register {handle : Addr} {recreated : Bool} (h : Lifetimes s)
    (hstep : step (.register handle recreated) s = some s') : Lifetimes s' := by
  obtain rfl := Option.some.inj hstep
  intro p st hp
  change Lifetime (s.kind p) st (Function.update s.exited s.threads.length false p)
  by_cases hlt : p < s.threads.length
  · have hthread : s.thread p = some st := by
      rw [State.thread, List.getElem?_append_left hlt] at hp
      exact hp
    rw [Function.update_of_ne (Nat.ne_of_lt hlt)]
    exact h p st hthread
  · have hget := Option.join_eq_some_iff.mp hp
    have hge : s.threads.length ≤ p := Nat.le_of_not_lt hlt
    rw [List.getElem?_append_right hge, List.getElem?_singleton] at hget
    obtain ⟨hzero, hst⟩ := Option.ite_none_right_eq_some.mp hget
    obtain rfl : p = s.threads.length := Nat.le_antisymm (Nat.sub_eq_zero_iff_le.mp hzero) hge
    obtain rfl := Option.some.inj (Option.some.inj hst)
    rw [Function.update_self]
    exact lifetime_start s.mode

theorem Lifetimes.step {a : Action} (h : Lifetimes s) (hfirst : exitsFirst s a = false)
    (hstep : TargetProcess.step a s = some s') : Lifetimes s' := by
  cases a with
  | thread p a => exact h.thread hfirst hstep
  | changeMode => exact h.changeMode hstep
  | register handle recreated => exact h.register hstep

/-- A thread which has exited in the model and ends does not wait for a permit. -/
theorem Lifetimes.not_abandoned (h : Lifetimes s) (q : RunnerId) : ¬ s.Abandoned q := by
  rintro ⟨hexited, st, hq, hends, hhead, hchild⟩
  have hlife := h q st hq
  rw [hexited] at hlife
  rcases hlife.life with ⟨hliving, -⟩ | ⟨-, hending⟩
  · exact Bool.false_ne_true hliving.exited.symm
  · rcases (hending hends).bounded with hbudget | hsilent | hbarred
    · have hwaits := hbudget.waits
      have hmem : .waitForScheduler ∈ st.code := List.mem_of_mem_head? hhead
      have hcount := List.count_pos_iff.mpr hmem
      rw [receivesLeft, if_pos rfl] at hwaits
      omega
    · exact Bool.false_ne_true hsilent.exited.symm
    · exact Bool.false_ne_true hbarred.exited.symm

/-- In every run in which no thread calls `pthread_exit` as its first operation after a restart,
no granted join waits for a thread which waits for McMini. -/
theorem noHangingJoin_of_run {acts : List Action} (hinit : s.Initial)
    (hfirst : HoldsAlong TargetProcess.step (fun s a => exitsFirst s a = false) s acts)
    (hrun : runFrom TargetProcess.step s acts = some s') : NoHangingJoin s' := by
  have hlives : Lifetimes s' :=
    runFrom_invariant_along (fun _ _ _ hs ha hstep => hs.step ha hstep) hinit.lifetimes hfirst hrun
  exact fun _ q _ => hlives.not_abandoned q

/-- The program creates a thread, which returns, and joins it. -/
private def joining : List Action :=
  [.thread 0 .executeRunner, .thread 0 .advance, .thread 0 .advance,
    .thread 0 (.call (.create 1000)), .register 1000 false, .thread 0 .advance, .thread 0 .advance,
    .thread 0 .advance, .thread 0 .receive, .thread 0 .advance, .thread 0 .executeRunner,
    .thread 0 .advance, .thread 0 (.call (.join 1000 (some ⟨1, false, false⟩))),
    .thread 0 .advance, .thread 0 .advance, .thread 0 .receive, .thread 0 .advance,
    .thread 1 .executeRunner, .thread 1 .advance, .thread 1 .advance, .thread 1 (.call .returns),
    .thread 1 .advance, .thread 1 .advance, .thread 1 .receive, .thread 1 .advance,
    .thread 1 .executeRunner, .thread 1 .advance, .thread 1 .advance, .thread 1 .receive,
    .thread 0 .executeRunner, .thread 0 .advance, .thread 0 .advance, .thread 0 .advance]

private def created : State where
  mode := .targetBranch
  atExit := true
  threads := [some (TargetThread.start .targetBranch)]
  pthreadMap := fun _ => none
  exited := fun _ => false

private theorem initial_created : created.Initial := by
  refine ⟨fun st hst => ?_, rfl, rfl, rfl, fun _ _ _ => rfl⟩
  exact Option.some.inj (List.mem_singleton.mp hst)

/-- The join is granted and waits for the thread, which needs no permit. -/
theorem noHangingJoin_of_joining :
    ∃ s, runFrom step created joining = some s ∧ s.exited 1 = true ∧
      (s.thread 0).any (fun st => st.code.head? = some (.lib (.join 1000))) = true ∧
      NoHangingJoin s := by
  obtain ⟨s, hs⟩ := Option.isSome_iff_exists.mp (show
    (runFrom step created joining).isSome = true by rfl)
  have hfinal : (runFrom step created joining).map (fun s => (s.exited 1,
      (s.thread 0).any fun st => st.code.head? = some (.lib (.join 1000)))) = some (true, true) := by
    rfl
  rw [hs] at hfinal
  obtain ⟨hexited, hjoin⟩ := Prod.mk.inj (Option.some.inj hfinal)
  exact ⟨s, hs, hexited, hjoin, noHangingJoin_of_run initial_created (by decide) hs⟩

/-- Two threads go on after a restart, and the one which is joined begins with `pthread_exit`. -/
private def exitingFirst : List Action :=
  [.thread 1 (.call .pthreadExit), .thread 1 .advance, .thread 1 .advance, .thread 1 .advance,
    .thread 0 (.call (.semPost 7)), .thread 0 .advance, .thread 0 .advance, .thread 0 .advance,
    .changeMode, .thread 1 .advance, .thread 1 .advance, .thread 0 .advance, .thread 0 .advance,
    .thread 1 .executeRunner, .thread 1 .advance, .thread 1 .advance, .thread 1 .advance,
    .thread 1 .receive, .thread 1 .advance, .thread 0 .executeRunner, .thread 0 .advance,
    .thread 0 .advance, .thread 0 (.call (.join 1000 (some ⟨1, false, true⟩))),
    .thread 0 .advance, .thread 0 .advance, .thread 0 .receive, .thread 0 .advance,
    .thread 0 .executeRunner, .thread 0 .advance, .thread 0 .advance, .thread 0 .advance]

private def restarted : State where
  mode := .dmtcpRestartIntoTemplate
  atExit := true
  threads := [some (TargetThread.start .dmtcpRestartIntoTemplate),
    some (TargetThread.start .dmtcpRestartIntoTemplate)]
  pthreadMap := fun handle => if handle = 1000 then some ⟨1, false, true⟩ else none
  exited := fun _ => false

private theorem initial_restarted : restarted.Initial := by
  refine ⟨fun st hst => ?_, rfl, rfl, rfl, fun _ _ _ => rfl⟩
  rcases List.mem_cons.mp hst with hst | hst
  · exact Option.some.inj hst
  · exact Option.some.inj (List.mem_singleton.mp hst)

/-- The join waits on `really_exited_sem`, and the thread for a second permit. -/
theorem not_noHangingJoin_of_exitingFirst :
    ∃ s₀ acts s, s₀.Initial ∧ runFrom step s₀ acts = some s ∧ ¬ NoHangingJoin s := by
  obtain ⟨s, hs⟩ := Option.isSome_iff_exists.mp (show
    (runFrom step restarted exitingFirst).isSome = true by rfl)
  refine ⟨restarted, exitingFirst, s, initial_restarted, hs, fun h => ?_⟩
  have hfinal : (runFrom step restarted exitingFirst).map (fun s =>
      (s.exited 1, (s.thread 1).map (fun st => (st.code.head?, st.childSideSem, st.currentCall)),
        (s.thread 0).map (·.code.head?), s.runnerOf 1000, (step (.thread 0 .advance) s).isNone)) =
      some (true, some (some .waitForScheduler, 0, some .pthreadExit),
        some (some (.lib (.waitReallyExited 1000))), 1, true) := by rfl
  rw [hs] at hfinal
  have hvalues := Option.some.inj hfinal
  simp only [Prod.mk.injEq] at hvalues
  obtain ⟨hexited, hone, hzero, hrunner, hblocked⟩ := hvalues
  obtain ⟨st₁, hst₁, hvalues₁⟩ := Option.map_eq_some_iff.mp hone
  obtain ⟨st₀, hst₀, hcode₀⟩ := Option.map_eq_some_iff.mp hzero
  simp only [Prod.mk.injEq] at hvalues₁
  obtain ⟨hcode₁, hchild, hcall⟩ := hvalues₁
  have hjoin : s.BlockedInJoin 0 1 :=
    ⟨st₀, 1000, hst₀, .inr hcode₀, hrunner, Option.isNone_iff_eq_none.mp hblocked⟩
  exact h 0 1 hjoin ⟨hexited, st₁, hst₁, .inr hcall, hcode₁, hchild⟩

end TargetProcess

end McMini
