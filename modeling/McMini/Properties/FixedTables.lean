import McMini.Properties.RunnerIds
import McMini.Properties.SearchHistory

/-!
# The tables of fixed size

Runners are numbered from `0` on, and no number is used twice: the library counts the threads
which register in a branch, the model the runners which it learns of. Two tables are indexed
with these numbers and have room for `maxTotalThreadsInProgram` of them: the clocks of a stack
item, and the mailboxes in the memory which the search shares with the branches.

Neither the callback for a thread creation nor `mc_register_this_thread` compares a number with
the size of the tables, and no access is checked. So the tables are respected as long as the
target does not create too many threads (`tables_respected`), and the thread which registers
with the first number too large waits at a mailbox behind the last one.
-/

namespace McMini

open Search Foundation

/-- What reading or writing the clocks behind the last one is taken for. -/
def outOfBounds : Failure := .undefinedBehavior "per_runner_clocks[p] is out of bounds"

/-- The handle of the thread which was created, if the report is about a creation. -/
def MailboxContents.newThread : MailboxContents → Option Addr
  | .threadCreate newThread => some newThread
  | _ => none

/-- The threads which have registered in a branch which has executed the runners: those it
began with, and one for each creation which was reported. -/
def registeredThreads (source : ProcessSource) (atStart : ℕ) (executed : List RunnerId) : ℕ :=
  atStart + ((List.range executed.length).filter fun k =>
    ((source (executed.take k) (executed.getD k ridInvalid)).toOption.bind
      MailboxContents.newThread).isSome).length

/-- The mailboxes used when a branch which has executed some runners executes the next one. The
search wakes the runner and waits for it, the runner reports, and a thread which it creates
registers and waits to be executed. -/
inductive UsesMailbox (source : ProcessSource) (atStart : ℕ) (executed : List RunnerId)
    (rid : RunnerId) : ℕ → Prop
  | executed : UsesMailbox source atStart executed rid rid
  | created {handle : Addr} (hreport : source executed rid = .ok (.threadCreate handle)) :
      UsesMailbox source atStart executed rid
        (registeredThreads source atStart executed % 65536)

variable (source : ProcessSource) (config : Configuration) (callbacks : Finset Callback)

/-- In a step from `s`, and in front of the first, no table is used behind its end. -/
structure TablesRespected (atStart : ℕ) (s : Search) : Prop where
  /-- The runners which are there at the start use their mailboxes before the search begins. -/
  restarted : ∀ p < atStart, p < maxTotalThreadsInProgram
  mailboxes : ∀ site rid now, Executes source config callbacks s site rid now →
    ∀ i, UsesMailbox source atStart now.coordinator.executed rid i → i < maxTotalThreadsInProgram
  written : ∀ site rid now c', Executes source config callbacks s site rid now →
    site ≠ .replay → (executeRunner source rid).run now.coordinator = (.ok (), c') →
    ∀ t_n s_n cv, c'.lastTransition = .ok t_n → stackBack now.stack = .ok s_n →
      s_n.withClockVector t_n.executor cv ≠ .error outOfBounds
  read : ∀ site rid now c' grown, Executes source config callbacks s site rid now →
    site ≠ .replay → (executeRunner source rid).run now.coordinator = (.ok (), c') →
    growStackAfterRunning config c' now.stack = .ok grown →
      dynamicallyUpdateBacktrackSets config c' grown ≠ .error outOfBounds

/-- When a thread creation is reported in a step from `s`, the thread is not one too many, of
those registered in the branch and, if its handle is new to the search, of the runners the
model knows. -/
structure RoomForThreads (atStart : ℕ) (s : Search) : Prop where
  registered : ∀ site rid now handle, Executes source config callbacks s site rid now →
    source now.coordinator.executed rid = .ok (.threadCreate handle) →
    registeredThreads source atStart now.coordinator.executed < maxTotalThreadsInProgram
  known : ∀ site rid now handle, Executes source config callbacks s site rid now →
    site ≠ .replay → source now.coordinator.executed rid = .ok (.threadCreate handle) →
    now.coordinator.containsRunner handle = false →
    now.coordinator.currentProgramModel.runnerCount < maxTotalThreadsInProgram

section

variable {source : ProcessSource} {config : Configuration} {callbacks : Finset Callback}
  {c c' : Coordinator} {s s' now : Search} {hs : List ItemHistory} {stack : List StackItem}
  {rid p : RunnerId} {site : Site} {r₀ : ℕ} {runners : List ℕ} {i : ℕ}

/-! ### The runners of the model -/

theorem AddsObject.runnerCount (h : AddsObject c c') :
    c'.currentProgramModel.runnerCount = c.currentProgramModel.runnerCount := by
  cases h with
  | nothing => rfl
  | object => rfl

/-- The callback learns of a runner only when a thread with a new handle is created. -/
theorem callback_runnerCount_le {contents : MailboxContents} {bound : ℕ}
    (hlayered : c.currentProgramModel.Layered r₀ runners)
    (hle : c.currentProgramModel.runnerCount ≤ bound)
    (hroom : ∀ handle, contents = .threadCreate handle → c.containsRunner handle = false →
      c.currentProgramModel.runnerCount < bound) :
    ((callback p contents).run c).2.currentProgramModel.runnerCount ≤ bound := by
  by_cases hcreate : ∃ handle, contents = .threadCreate handle
  · obtain ⟨handle, rfl⟩ := hcreate
    cases hknown : c.containsRunner handle with
    | true =>
      have hrunner : c.getModelOfRunner handle ≠ ridInvalid := by
        rwa [Coordinator.containsRunner, bne_iff_ne] at hknown
      rw [callback, threadCreateCallback_known hrunner]
      exact hle
    | false =>
      have hadds : Adds c ((threadCreateCallback p handle).run c).2 := adds_threadCreateCallback p
      have hlt := hroom handle rfl hknown
      exact (hadds.runnerCount_le hlayered).trans hlt
  · have hadds := callback_addsObject p (fun handle hhandle => hcreate ⟨handle, hhandle⟩) c
    rw [hadds.runnerCount]
    exact hle

/-- Executing a runner teaches the model of one more at most, if there is room. -/
theorem executeRunner_runnerCount_le {bound : ℕ}
    (hlayered : c.currentProgramModel.Layered r₀ runners)
    (hle : c.currentProgramModel.runnerCount ≤ bound)
    (hroom : ∀ handle, source c.executed rid = .ok (.threadCreate handle) →
      c.containsRunner handle = false → c.currentProgramModel.runnerCount < bound)
    (hrun : (executeRunner source rid).run c = (.ok (), c')) :
    c'.currentProgramModel.runnerCount ≤ bound := by
  obtain ⟨contents, u, c₁, next, s', hsource, hcallback, hu, hnext, hfollow, rfl⟩ :=
    executeRunner_eq_ok hrun
  have hcount := callback_runnerCount_le (c := c.afterProcess rid) (p := rid) hlayered hle
    fun handle hcontents => hroom handle (hcontents ▸ hsource)
  rw [hcallback] at hcount
  obtain ⟨hlayered₁, -, -, -⟩ := callback_layered hlayered hcallback
  have hmodel := modelExecutionOf_eq_ok.mpr ⟨hu, next, s', hnext, hfollow, rfl⟩
  obtain ⟨-, -, hsame, -⟩ := hlayered₁.execute hmodel
  exact hsame.trans_le hcount

/-- The runners which are executed are known to the model. -/
theorem Executes.lt_runnerCount (h : Executes source config callbacks s site rid now)
    (hinvariant : SearchInvariant r₀ s hs)
    (hfits : s.coordinator.currentProgramModel.runnerCount ≤ runnerIdMax) :
    rid < s.coordinator.currentProgramModel.runnerCount := by
  obtain ⟨runners, hstack⟩ := hinvariant.stack
  cases h with
  | @exploration init back hphase heq hnonempty hlimit =>
    refine hstack.lt_runnerCount heq (getFirstEnabledRunner_mem hnonempty fun q hq => ?_)
    exact (hstack.lt_runnerCount heq hq).le.trans hfits
  | @backtracked init back back' rid hphase heq hpop =>
    obtain ⟨hist, hitem⟩ := hstack.last heq
    exact hstack.lt_runnerCount heq (hitem.marked.backtrack (mem_of_backtrackSetPopFirst hpop))
  | @replay init init' back back' s₁ pre post rid hphase heq hnone hcomplete hpop hrestore hlength
      htrace hanswers =>
    -- the runner has executed a transition of the trace
    obtain ⟨-, hcoordinator, -⟩ := completeTrace_eq_ok hcomplete
    rw [hcoordinator] at htrace
    have hmem : rid ∈ (s.coordinator.getTrace.take init.length).map (·.executor) := by
      have htake : (s.coordinator.restored init.length).getTrace =
          s.coordinator.getTrace.take init.length := rfl
      rw [← htake, htrace]
      simp
    obtain ⟨t, ht, rfl⟩ := List.mem_map.mp hmem
    obtain ⟨i, hi⟩ := List.mem_iff_getElem?.mp (List.mem_of_mem_take ht)
    exact (hstack.layered.pending_lt (Program.pendingAtDepth_executor hi)).2

/-! ### The clocks which are read -/

/-- The exception is not about the clocks. -/
def InBounds (e : Failure) : Prop := e ≠ outOfBounds

theorem inBounds_deref (out : TransitionPointer) : ThrowsOnly InBounds out.deref := by
  cases out with
  | nullptr => exact throwsOnly_error (by simp [InBounds, outOfBounds])
  | valid t => exact throwsOnly_ok t
  | dangling => exact throwsOnly_error (by simp [InBounds, outOfBounds])

theorem inBounds_stackAt (n : ℕ) : ThrowsOnly InBounds (stackAt stack n) := by
  unfold stackAt
  cases stack[n]? with
  | none => exact throwsOnly_error (by simp [InBounds, outOfBounds])
  | some item => exact throwsOnly_ok item

theorem inBounds_happensBeforeThread (hp : p < maxTotalThreadsInProgram) (n : ℕ) :
    ThrowsOnly InBounds (happensBeforeThread stack n p) := by
  have ht : ThrowsOnly InBounds (getTransition stack n) :=
    (inBounds_stackAt n).bind fun _ => inBounds_deref _
  have hback : ThrowsOnly InBounds (stackBack stack) := by
    unfold stackBack
    cases stack.getLast? with
    | none => exact throwsOnly_error (by simp [InBounds, outOfBounds])
    | some item => exact throwsOnly_ok item
  have hclock : ∀ item : StackItem, ThrowsOnly InBounds (item.clockVectorOf p) := by
    intro item
    unfold StackItem.clockVectorOf
    rw [Vector.getElem?_eq_getElem hp]
    exact throwsOnly_ok _
  exact ht.bind fun _ => hback.bind fun _ => (hclock _).bind fun _ => throwsOnly_ok _

theorem inBounds_atIndex (hp : p < maxTotalThreadsInProgram) (stack : List StackItem)
    (S_i next_sp : Transition) (n : ℕ) : ThrowsOnly InBounds
      (dynamicallyUpdateBacktrackSetsAtIndex config stack S_i next_sp n p) := by
  have hrace : ThrowsOnly InBounds (hasReversibleRace config stack S_i next_sp n p) :=
    throwsOnly_ite ((inBounds_happensBeforeThread hp _).bind fun _ => throwsOnly_ok _)
      (throwsOnly_ok _)
  have hafter : ∀ q, ThrowsOnly InBounds (threadsRaceAfter stack n q p) := by
    intro q
    refine throwsOnly_anyM fun j => ?_
    refine ((inBounds_stackAt j).bind fun _ => inBounds_deref _).bind fun _ => ?_
    exact throwsOnly_ite (inBounds_happensBeforeThread hp _) (throwsOnly_ok _)
  refine (inBounds_stackAt n).bind fun pre_si => hrace.bind fun race => ?_
  refine throwsOnly_ite (ThrowsOnly.bind ?_ fun _ => throwsOnly_ok _) (throwsOnly_ok _)
  refine (throwsOnly_filterM fun q => ?_).bind fun _ => throwsOnly_ok _
  exact throwsOnly_ite (throwsOnly_ok _) (hafter q)

/-- Only the clocks of runners with a pending transition are read. -/
theorem inBounds_dynamicallyUpdateBacktrackSets (stack : List StackItem)
    (hpending : ∀ q t, c.currentProgramModel.nextSteps.lookup q = some t →
      q < maxTotalThreadsInProgram) :
    ThrowsOnly InBounds (dynamicallyUpdateBacktrackSets config c stack) := by
  have hnext : ∀ {α : Type} {q : RunnerId} {f : Transition → Except Failure α},
      (q < maxTotalThreadsInProgram → ∀ t, ThrowsOnly InBounds (f t)) →
      ThrowsOnly InBounds (c.pendingTransitionFor q >>= f) := by
    intro α q f hf
    unfold Coordinator.pendingTransitionFor
    cases ht : c.currentProgramModel.nextSteps.lookup q with
    | none => exact throwsOnly_error (by simp [InBounds, outOfBounds])
    | some t => exact hf (hpending q t ht) t
  have hothers : ∀ S_n top thread_ids stack,
      ThrowsOnly InBounds (updateForOthers config c S_n top thread_ids stack) := by
    intro S_n top thread_ids
    induction thread_ids with
    | nil => exact fun stack => throwsOnly_ok stack
    | cons q thread_ids ih =>
      exact fun stack => hnext fun hq _ => (inBounds_atIndex hq _ _ _ _).bind fun r => ih r.2
  have hlatest : ∀ next_sp q n stack, q < maxTotalThreadsInProgram →
      ThrowsOnly InBounds (updateForLatest config c next_sp q n stack) := by
    intro next_sp q n
    induction n with
    | zero => exact fun stack _ => throwsOnly_ok stack
    | succ n ih =>
      intro stack hq
      rw [updateForLatest]
      cases c.getTrace[n]? with
      | none => exact throwsOnly_error (by simp [InBounds, outOfBounds])
      | some S_i =>
        exact (inBounds_atIndex hq _ _ _ _).bind fun r =>
          throwsOnly_ite (throwsOnly_ok _) (ih r.2 hq)
  have hlast : ThrowsOnly InBounds c.lastTransition := by
    unfold Coordinator.lastTransition
    cases c.getTrace.getLast? with
    | none => exact throwsOnly_error (by simp [InBounds, outOfBounds])
    | some t => exact throwsOnly_ok t
  exact hlast.bind fun _ => (hothers _ _ _ _).bind fun _ => hnext fun hq _ => hlatest _ _ _ _ hq

/-! ### Runs -/

/-- A step in which there is room for the threads which are created teaches the model of no
runner too many. -/
theorem Search.Steps.runnerCount_le (h : Steps source config callbacks s s')
    (hinvariant : SearchInvariant r₀ s hs)
    (hle : s.coordinator.currentProgramModel.runnerCount ≤ maxTotalThreadsInProgram)
    (hroom : RoomForThreads source config callbacks i s) :
    s'.coordinator.currentProgramModel.runnerCount ≤ maxTotalThreadsInProgram := by
  obtain ⟨runners, hstack⟩ := hinvariant.stack
  rcases h.executes_or with ⟨site, q, now, hexecutes, hsite, hnow, hexecute⟩ | hsame | ⟨n, hrun⟩
  · refine executeRunner_runnerCount_le hstack.layered hle (fun handle => ?_) hexecute
    have hroom' := hroom.known site q now handle hexecutes hsite
    rwa [hnow] at hroom'
  · rw [hsame]
    exact hle
  · obtain ⟨hrestore, -⟩ := returnToDepth_restores hrun
    obtain ⟨-, -, -, -, hcount⟩ := hstack.layered.restoreModelAtDepth hrestore
    exact hcount.trans_le hle

/-- As long as there has been room for the threads, the model knows no runner too many. -/
theorem runnerCount_le_of_traced (hc : c.Initial)
    (hstart : c.currentProgramModel.runnerCount ≤ maxTotalThreadsInProgram)
    (hroom : ∀ s, Search.Reachable source config callbacks c s →
      RoomForThreads source config callbacks i s)
    (h : Traced source config callbacks c s hs) :
    s.coordinator.currentProgramModel.runnerCount ≤ maxTotalThreadsInProgram := by
  induction h with
  | start hs₀ =>
    obtain ⟨enabled, -, hs₀⟩ := bind_eq_ok.mp hs₀
    rw [← Except.ok.inj hs₀]
    exact hstart
  | expand h hstep _ _ ih | back h hstep _ ih | finish h hstep _ ih =>
    exact hstep.runnerCount_le (searchInvariant_of_traced hc h hstep.stack_ne_nil) ih
      (hroom _ h.reachable)

theorem Executes.stack_ne_nil (h : Executes source config callbacks s site rid now) :
    s.stack ≠ [] := by
  cases h with
  | exploration _ hstack _ _ => simp [hstack]
  | backtracked _ hstack _ => simp [hstack]
  | replay _ hstack _ _ _ _ _ _ _ => simp [hstack]

theorem Executes.coordinator (h : Executes source config callbacks s site rid now)
    (hsite : site ≠ .replay) : now.coordinator = s.coordinator := by
  cases h with
  | exploration | backtracked => rfl
  | replay => exact absurd rfl hsite

/-- **When the tables are respected.** A search begins with at most as many threads as the
tables have room for. If in every step each thread which is created is not one too many, in
its branch and among the runners which the model knows, then no table is used behind its
end. -/
theorem tables_respected (hc : c.Initial)
    (hstart : c.currentProgramModel.runnerCount ≤ maxTotalThreadsInProgram)
    (hroom : ∀ s, Search.Reachable source config callbacks c s →
      RoomForThreads source config callbacks c.currentProgramModel.runnerCount s)
    (h : Search.Reachable source config callbacks c s) :
    TablesRespected source config callbacks c.currentProgramModel.runnerCount s := by
  obtain ⟨hs, htraced⟩ := h.traced
  have hcount := runnerCount_le_of_traced hc hstart hroom htraced
  have hfits : s.coordinator.currentProgramModel.runnerCount ≤ runnerIdMax :=
    hcount.trans (by decide)
  have hinvariant : s.stack ≠ [] → SearchInvariant c.currentProgramModel.runnerCount s hs :=
    searchInvariant_of_traced hc htraced
  have hexecuted : ∀ {site rid now}, Executes source config callbacks s site rid now →
      rid < s.coordinator.currentProgramModel.runnerCount := by
    intro site rid now hexecutes
    exact hexecutes.lt_runnerCount (hinvariant hexecutes.stack_ne_nil) hfits
  -- the model after the execution of a runner, which is still small
  have hafter : ∀ {site rid now c'}, Executes source config callbacks s site rid now →
      site ≠ .replay → (executeRunner source rid).run now.coordinator = (.ok (), c') →
      c'.currentProgramModel.runnerCount ≤ maxTotalThreadsInProgram ∧
      (∀ q t, c'.currentProgramModel.nextSteps.lookup q = some t →
        q < c'.currentProgramModel.runnerCount) ∧
      ∃ t, t.executor = rid ∧ c'.lastTransition = .ok t := by
    intro site rid now c' hexecutes hsite hrun
    obtain ⟨runners, hstack⟩ := (hinvariant hexecutes.stack_ne_nil).stack
    have hlt := hexecuted hexecutes
    have hsame := hexecutes.coordinator hsite
    have hroom' := fun handle => (hroom s h).known site rid now handle hexecutes hsite
    rw [hsame] at hrun hroom'
    obtain ⟨hlayered, -, t, ht, htrace⟩ := executeRunner_layered hstack.layered hlt hrun
    refine ⟨executeRunner_runnerCount_le hstack.layered hcount hroom' hrun, hlayered.known, t,
      hstack.layered.keyed rid t ht, ?_⟩
    exact lastTransition_eq_ok.mpr (by rw [htrace, List.getLast?_concat])
  refine ⟨fun p hp => hp.trans_le hstart, ?_, ?_, ?_⟩
  · intro site rid now hexecutes i hi
    cases hi with
    | executed => exact (hexecuted hexecutes).trans_le hcount
    | created hreport =>
      exact (Nat.mod_le _ _).trans_lt ((hroom s h).registered site rid now _ hexecutes hreport)
  · intro site rid now c' hexecutes hsite hrun t_n s_n cv hlast _
    obtain ⟨-, -, t, hexec, ht⟩ := hafter hexecutes hsite hrun
    obtain rfl : t = t_n := Except.ok.inj (ht.symm.trans hlast)
    have hfit : t.executor < maxTotalThreadsInProgram :=
      hexec ▸ (hexecuted hexecutes).trans_le hcount
    rw [StackItem.withClockVector, dif_pos hfit]
    exact fun heq => nomatch heq
  · intro site rid now c' grown hexecutes hsite hrun _ heq
    obtain ⟨hle, hknown, -⟩ := hafter hexecutes hsite hrun
    exact inBounds_dynamicallyUpdateBacktrackSets grown
      (fun q t ht => (hknown q t ht).trans_le hle) _ heq rfl

end

/-- A restored program: a main thread which is about to take a unit of a semaphore, and other
threads which are about to exit. -/
private def restoredThreads : ℕ → Coordinator
  | 0 =>
    { Coordinator.atMain.observe 64 (.semaphore (.ofCount 1)) with
      currentProgramModel :=
        ⟨(Coordinator.atMain.observe 64 (.semaphore (.ofCount 1))).getStateSequence, [],
          Finmap.singleton 0 ⟨0, .semWait 1⟩⟩ }
  | n + 1 =>
    { restoredThreads n with
      currentProgramModel :=
        ⟨((restoredThreads n).getStateSequence.addRunner ⟨.running⟩).1, [],
          (restoredThreads n).currentProgramModel.nextSteps.insert (n + 1)
            ⟨n + 1, .threadExit⟩⟩ }

/-- The main thread creates another thread when it has taken the unit. -/
private def creatingOneMore : ProcessSource := fun executed p =>
  if p = 0 ∧ executed = [] then .ok (.threadCreate 4096) else .ok .threadExit

private theorem initial_restoredThreads (n : ℕ) : (restoredThreads n).Initial := by
  induction n with
  | zero =>
    refine ⟨rfl, rfl, rfl, Coordinator.initial_atMain.settled.addObject _, fun q t h => ?_⟩
    have hlookup : (Finmap.insert 0 ⟨0, .semWait 1⟩ ∅ :
        Finmap fun _ : RunnerId => Transition).lookup q = some t := h
    rw [lookup_insert] at hlookup
    split_ifs at hlookup with hq
    · rw [← Option.some.inj hlookup]
      exact hq
    · simp at hlookup
  | succ n ih =>
    obtain ⟨m, -, heq⟩ := ih.settled.consistent.addRunner_eq ⟨.running⟩
    refine ⟨ih.executed, rfl, ?_, (ih.settled.addRunner ⟨.running⟩).1, fun q t h => ?_⟩
    · have hearlier := ih.earlier
      show ((restoredThreads n).getStateSequence.addRunner ⟨.running⟩).1.earlier = []
      rw [heq]
      exact hearlier
    · have hlookup : ((restoredThreads n).currentProgramModel.nextSteps.insert (n + 1)
          ⟨n + 1, .threadExit⟩).lookup q = some t := h
      rw [lookup_insert] at hlookup
      split_ifs at hlookup with hq
      · rw [← Option.some.inj hlookup]
        exact hq
      · exact ih.keyed q t hlookup

/-- The search at its start. -/
private def searchOfRestored : Search where
  coordinator := restoredThreads 19
  stack := [{ cv := .empty, enabledRunners := Finset.range 20 }]

set_option maxRecDepth 100000 in
private theorem start_restoredThreads : Search.start (restoredThreads 19) = .ok searchOfRestored := by
  rfl

/-- A restored program has as many threads as the tables have room for. The next thread which
is created, when the main thread is executed for the first time, uses a mailbox which does not
exist. -/
theorem mailbox_behind_the_last : (restoredThreads 19).Initial ∧
    Search.Reachable creatingOneMore {} ∅ (restoredThreads 19) searchOfRestored ∧
    UsesMailbox creatingOneMore 20 searchOfRestored.coordinator.executed 0 20 ∧
    ¬ TablesRespected creatingOneMore {} ∅ 20 searchOfRestored := by
  have hreport : creatingOneMore searchOfRestored.coordinator.executed 0 =
      .ok (.threadCreate 4096) := rfl
  have huses : UsesMailbox creatingOneMore 20 searchOfRestored.coordinator.executed 0 20 :=
    .created hreport
  refine ⟨initial_restoredThreads 19, ⟨_, start_restoredThreads, .refl⟩, huses, fun h => ?_⟩
  have hstack : searchOfRestored.stack =
      [] ++ [{ cv := .empty, enabledRunners := Finset.range 20 }] := rfl
  have hexecutes : Executes creatingOneMore {} ∅ searchOfRestored .exploration 0 searchOfRestored :=
    .exploration rfl hstack (by decide) (by decide)
  exact absurd (h.mailboxes _ _ _ hexecutes 20 huses) (by decide)

/-- The main thread creates two threads, which exit, and joins the first. -/
private def startingTwo : ProcessSource := fun executed p =>
  if p = 0 then
    match executed with
    | [] => .ok (.threadCreate 1)
    | [_] => .ok (.threadCreate 2)
    | [_, _] => .ok (.threadJoin 1)
    | _ => .ok .threadExit
  else .ok .threadExit

/-- A thread is created by the first or the second execution. -/
private theorem length_le_one_of_creation {executed : List RunnerId} {handle : Addr}
    (h : startingTwo executed p = .ok (.threadCreate handle)) : executed.length ≤ 1 := by
  by_cases hmain : p = 0
  · subst hmain
    match executed, h with
    | [], _ => exact Nat.zero_le 1
    | [_], _ => exact Nat.le_refl 1
    | [_, _], h | _ :: _ :: _ :: _, h => cases Except.ok.inj h
  · cases Except.ok.inj ((if_neg hmain).symm.trans h)

private def searchOfStartingTwo : ℕ → Search
  | 0 => Search.atMain
  | n + 1 =>
    match (searchOfStartingTwo n).step startingTwo {} ∅ with
    | .continues s => s
    | _ => searchOfStartingTwo n

private theorem steps_searchOfStartingTwo : ∀ n < 7,
    Steps startingTwo {} ∅ (searchOfStartingTwo n) (searchOfStartingTwo (n + 1))
  | 0, _ | 1, _ | 2, _ | 3, _ | 4, _ | 5, _ | 6, _ => by rfl

/-- The tables are respected in the whole search of a program which creates two threads. On one
of its branches all three threads are executed. -/
theorem tables_respected_startingTwo :
    (∃ s, Search.Reachable startingTwo {} ∅ .atMain s ∧
      s.coordinator.executed = [0, 0, 0, 1, 1, 0, 2] ∧ s.coordinator.currentProgramModel.runnerCount = 3) ∧
    ∀ s, Search.Reachable startingTwo {} ∅ .atMain s → TablesRespected startingTwo {} ∅ 1 s := by
  have hstart : Search.start .atMain = .ok Search.atMain := by rfl
  refine ⟨⟨searchOfStartingTwo 7, ⟨_, hstart, ?_⟩, by rfl, by rfl⟩, fun s h => ?_⟩
  · have hruns : ∀ n ≤ 7, Relation.ReflTransGen (Steps startingTwo {} ∅) Search.atMain
        (searchOfStartingTwo n) := by
      intro n
      induction n with
      | zero => exact fun _ => .refl
      | succ n ih =>
        intro hn
        exact (ih (by omega)).tail (steps_searchOfStartingTwo n (by omega))
    exact hruns 7 le_rfl
  · have hthree : Search.atMain.passes startingTwo {} ∅
        (fun s => decide (s.coordinator.currentProgramModel.runnerCount ≤ 3)) 40 = true := by
      decide +kernel
    refine tables_respected Coordinator.initial_atMain (by decide) (fun s hs => ⟨?_, ?_⟩) h
    · intro site rid now handle _ hreport
      have hlength := length_le_one_of_creation hreport
      show registeredThreads startingTwo 1 now.coordinator.executed < maxTotalThreadsInProgram
      have hregistered : registeredThreads startingTwo 1 now.coordinator.executed ≤
          1 + now.coordinator.executed.length := by
        refine Nat.add_le_add_left ?_ 1
        exact (List.length_filter_le _ _).trans_eq List.length_range
      have hroom : 2 < maxTotalThreadsInProgram := by decide
      omega
    · intro site rid now handle hexecutes hsite _ _
      rw [hexecutes.coordinator hsite]
      have hcount := of_decide_eq_true (hs.check_of_passes hstart hthree)
      exact hcount.trans_lt (by decide)

end McMini
