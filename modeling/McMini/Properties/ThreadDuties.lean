import McMini.Properties.GrantedJoins
import McMini.RealWorld.TargetBranch

/-!
# What a thread calls when it has its permit

McMini executes the operation which a thread has described in its mailbox. The thread calls the
functions of the thread library, and no one compares the two.

What a thread has to do next is its `Duty`. It waits for its permit, calls then what its mailbox
describes (`callOf`), once, and goes on with the program until it has reported the next operation.
In between it calls nothing else which changes a semaphore. The wrappers do so as lists of
instructions (`follows_code`), and a thread which does so goes on doing so (`OnDuty.advance` and
what follows it), also one which has come through a restart (`onDuty_of_begins`).
-/

namespace McMini.TargetBranch

open Foundation
open TargetThread (Instr LibCall Call Mode)

/-! ### What a thread calls after its permit -/

/-- The function which changes semaphores. -/
def changesSemaphores : LibCall → Bool
  | .semInit _ _ | .semPost _ | .semDestroy _ => true
  | _ => false

/-- What the wrapper of the operation calls when it has its permit. The wrapper of `sem_wait`
posts. -/
def callOf : Option MailboxContents → Option LibCall
  | some (.semInit sem count) => some (.semInit sem count)
  | some (.semPost sem) => some (.semPost sem)
  | some (.semWait sem) => some (.semPost sem)
  | some (.semDestroy sem) => some (.semDestroy sem)
  | _ => none

/-- What a thread has to do next. -/
inductive Duty
  /-- It has not checked in after a restart. -/
  | restarting
  | waiting
  /-- It has its permit, and calls the function if there is one. -/
  | owing (call : Option LibCall)
  /-- It waits for a permit which it does not get. -/
  | stuck

/-- The duty after an instruction. There is none where the instruction may not be executed. -/
def Duty.after (mailbox : Option MailboxContents) : Duty → Instr → Option Duty
  | .stuck, _ => some .stuck
  | .restarting, .notifyTemplateThread => some .waiting
  | .restarting, .write _ | .restarting, .create | .restarting, .rest _
  | .restarting, .assert _ => some .restarting
  | .waiting, .waitForScheduler => some (.owing (callOf mailbox))
  | .waiting, .lib f => if changesSemaphores f then none else some .waiting
  | .waiting, .rest _ | .waiting, .waitForBranch | .waiting, .waitForExitPermission => some .waiting
  | .owing (some f), .lib g => if g = f then some (.owing none) else none
  | .owing none, .lib f => if changesSemaphores f then none else some (.owing none)
  | .owing none, .wakeScheduler => some .waiting
  | .owing none, .waitForScheduler => some .stuck
  | .owing none, .write _ | .owing none, .rest _ | .owing none, .create | .owing none, .assert _
  | .owing none, .waitForExitPermission => some (.owing none)
  | _, _ => none

/-- Whether the thread may go on with the program. -/
def Duty.mayCall : Duty → Bool
  | .restarting | .owing none | .stuck => true
  | .waiting | .owing (some _) => false

def mailboxAfter (mailbox : Option MailboxContents) : Instr → Option MailboxContents
  | .write contents => some contents
  | _ => mailbox

/-- The instructions do what the thread has to do. Nothing comes after `stop`. -/
def Follows : Duty → Option MailboxContents → List Instr → Prop
  | d, _, [] => d.mayCall = true
  | _, _, .stop :: _ => True
  | d, mailbox, i :: code => ∃ d', d.after mailbox i = some d' ∧
      Follows d' (mailboxAfter mailbox i) code

section Follows

variable {d d' : Duty} {mailbox : Option MailboxContents} {contents : MailboxContents}
  {mode : Mode} {code : List Instr} {i : Instr}

theorem follows_cons (hi : i ≠ .stop) : Follows d mailbox (i :: code) ↔
    ∃ d', d.after mailbox i = some d' ∧ Follows d' (mailboxAfter mailbox i) code := by
  cases i with
  | stop => exact absurd rfl hi
  | _ => exact Iff.rfl

theorem follows_stuck : Follows .stuck mailbox code := by
  induction code generalizing mailbox with
  | nil => rfl
  | cons i code ih =>
    by_cases hi : i = .stop
    · rw [hi]
      trivial
    · exact (follows_cons hi).mpr ⟨.stuck, rfl, ih⟩

/-- The duty of a thread which calls a wrapper. -/
def callingDuty (mode : Mode) : Duty := if mode.isInRestartMode then .restarting else .owing none

theorem follows_threadWakeSchedulerAndWait (h : Follows (.owing (callOf mailbox)) mailbox code) :
    Follows (.owing none) mailbox (TargetThread.threadWakeSchedulerAndWait ++ code) :=
  ⟨.waiting, rfl, .waiting, rfl, _, rfl, h⟩

theorem follows_threadHandleAfterDmtcpRestart (hmode : mode.isInRestartMode = true)
    (h : Follows (.owing (callOf mailbox)) mailbox code) :
    Follows .restarting mailbox (TargetThread.threadHandleAfterDmtcpRestart mode ++ code) := by
  cases mode with
  | targetBranch | targetBranchAfterRestart => exact absurd hmode (by decide)
  | dmtcpRestartIntoBranch => exact ⟨.waiting, rfl, .waiting, rfl, _, rfl, h⟩
  | dmtcpRestartIntoTemplate =>
    exact ⟨.waiting, rfl, .waiting, rfl, .waiting, rfl, .waiting, rfl, _, rfl, h⟩

theorem follows_visibleOperation
    (h : Follows (.owing (callOf (some contents))) (some contents) code) :
    Follows (callingDuty mode) mailbox (TargetThread.visibleOperation mode contents ++ code) := by
  rw [callingDuty, TargetThread.visibleOperation]
  by_cases hmode : mode.isInRestartMode
  · rw [if_pos hmode, if_pos hmode]
    exact ⟨.restarting, rfl, follows_threadHandleAfterDmtcpRestart hmode h⟩
  · rw [if_neg hmode, if_neg hmode]
    exact ⟨.owing none, rfl, follows_threadWakeSchedulerAndWait h⟩

theorem follows_checkInFirst (hnone : callOf (some contents) = none)
    (h : ∀ mailbox, Follows (.owing none) mailbox code) :
    Follows (callingDuty mode) mailbox (TargetThread.checkInFirst mode contents ++ code) := by
  rw [callingDuty, TargetThread.checkInFirst]
  by_cases hmode : mode.isInRestartMode
  · rw [if_pos hmode, if_pos hmode]
    refine ⟨.restarting, rfl, follows_threadHandleAfterDmtcpRestart hmode ?_⟩
    rw [mailboxAfter, hnone]
    exact h _
  · rw [if_neg hmode, if_neg hmode]
    exact h _

/-- Reporting an operation which is none of semaphores, and what comes after the permit. -/
theorem follows_write_wake (hnone : callOf (some contents) = none)
    (h : Follows (.owing none) (some contents) code) :
    Follows (.owing none) mailbox
      (.write contents :: (TargetThread.threadWakeSchedulerAndWait ++ code)) := by
  refine ⟨.owing none, rfl, follows_threadWakeSchedulerAndWait ?_⟩
  rw [mailboxAfter, hnone]
  exact h

theorem follows_mcExitThreadInChild :
    Follows (.owing none) mailbox
      (TargetThread.mcExitThreadInChild ++ [.rest .ends, .stop]) := by
  rw [TargetThread.mcExitThreadInChild, List.cons_append, List.cons_append, List.append_assoc]
  exact follows_write_wake rfl
    ⟨.waiting, rfl, .waiting, rfl, .waiting, rfl, .waiting, rfl, .waiting, rfl, trivial⟩

theorem follows_mcExitMainThreadInChild {t : TargetThread.Thread} :
    Follows (.owing none) mailbox
      (TargetThread.mcExitMainThreadInChild t ++ [.rest .ends, .stop]) := by
  rw [TargetThread.mcExitMainThreadInChild]
  by_cases hmain : t.main = true
  · rw [if_pos hmain, List.cons_append, List.cons_append, List.append_assoc]
    exact follows_write_wake rfl ⟨.owing none, rfl, .waiting, rfl, .waiting, rfl, trivial⟩
  · rw [if_neg hmain]
    exact ⟨.owing none, rfl, trivial⟩

theorem follows_libcExit {t : TargetThread.Thread} :
    Follows (.owing none) mailbox (TargetThread.libcExit t) := by
  rw [TargetThread.libcExit]
  by_cases hexit : t.atExit = true
  · rw [if_pos hexit]
    exact follows_mcExitMainThreadInChild
  · rw [if_neg hexit]
    exact ⟨.owing none, rfl, trivial⟩

theorem follows_realJoin {thread : Addr} {entry : Option TargetThread.PthreadMapEntry} :
    Follows (.owing none) mailbox (TargetThread.realJoin mode thread entry) := by
  cases mode with
  | targetBranch => exact ⟨_, rfl, _, rfl, _, rfl, rfl⟩
  | targetBranchAfterRestart =>
    refine ⟨_, rfl, _, rfl, ?_⟩
    split_ifs
    · exact ⟨_, rfl, rfl⟩
    · exact ⟨_, rfl, rfl⟩
    · rfl
  | dmtcpRestartIntoBranch | dmtcpRestartIntoTemplate => rfl

/-- **The wrappers** call what their operation stands for. -/
theorem follows_code (t : TargetThread.Thread) (mode : Mode) (c : Call) :
    Follows (callingDuty mode) mailbox (c.code t mode) := by
  have hvisible : ∀ contents, Follows (.owing (callOf (some contents))) (some contents) [] →
      Follows (callingDuty mode) mailbox (TargetThread.visibleOperation mode contents) := by
    intro contents h
    rw [← List.append_nil (TargetThread.visibleOperation mode contents)]
    exact follows_visibleOperation h
  cases c with
  | mutexInit mutex normal =>
    have hinit : ∀ d, d.after mailbox (.assert normal) = some d →
        Follows d mailbox (TargetThread.visibleOperation mode (.mutexInit mutex) ++
          [.lib (.mutexInit mutex)]) →
        Follows d mailbox (TargetThread.mcPthreadMutexInit mode mutex normal) :=
      fun d hd h => ⟨d, hd, h⟩
    refine hinit _ ?_ (follows_visibleOperation ⟨_, rfl, rfl⟩)
    rw [callingDuty]
    split_ifs
    · rfl
    · rfl
  | mutexLock mutex isStatic => exact follows_visibleOperation ⟨_, rfl, rfl⟩
  | mutexUnlock mutex => exact follows_visibleOperation ⟨_, rfl, rfl⟩
  | condInit cond => exact hvisible _ rfl
  | condWait cond mutex isStatic =>
    show Follows _ _ (TargetThread.mcPthreadCondWait mode cond mutex isStatic)
    rw [TargetThread.mcPthreadCondWait, List.append_assoc, List.append_assoc]
    refine follows_visibleOperation ⟨_, rfl, ?_⟩
    exact follows_write_wake rfl ⟨_, rfl, rfl⟩
  | condSignal cond isStatic => exact hvisible _ rfl
  | condBroadcast cond isStatic => exact hvisible _ rfl
  | condDestroy cond => exact hvisible _ rfl
  | semInit sem count => exact follows_visibleOperation ⟨_, if_pos rfl, rfl⟩
  | semPost sem => exact follows_visibleOperation ⟨_, if_pos rfl, rfl⟩
  | semWait sem => exact follows_visibleOperation ⟨_, if_pos rfl, rfl⟩
  | semDestroy sem => exact follows_visibleOperation ⟨_, if_pos rfl, rfl⟩
  | sleep =>
    show Duty.mayCall (callingDuty mode) = true
    rw [callingDuty]
    split_ifs
    · rfl
    · rfl
  | create thread =>
    show Follows _ _ (TargetThread.mcPthreadCreate mode thread)
    rw [callingDuty, TargetThread.mcPthreadCreate]
    by_cases hmode : mode.isInRestartMode
    · rw [if_pos hmode, if_pos hmode]
      exact ⟨_, rfl, rfl⟩
    · rw [if_neg hmode, if_neg hmode, ← List.append_nil TargetThread.threadWakeSchedulerAndWait]
      exact ⟨_, rfl, follows_write_wake rfl rfl⟩
  | join thread entry => exact follows_visibleOperation follows_realJoin
  | pthreadExit =>
    show Follows _ _ (TargetThread.mcPthreadExit t mode)
    rw [TargetThread.mcPthreadExit, List.append_assoc]
    refine follows_checkInFirst rfl fun mailbox => ?_
    split_ifs
    · exact follows_mcExitMainThreadInChild
    · exact follows_mcExitThreadInChild
  | exit status =>
    show Follows _ _ (TargetThread.mcTransparentExit t mode status)
    rw [TargetThread.mcTransparentExit, List.append_assoc, List.append_assoc]
    refine follows_checkInFirst rfl fun mailbox => ?_
    exact follows_write_wake rfl (follows_write_wake rfl follows_libcExit)
  | abort =>
    show Follows _ _ (TargetThread.mcTransparentAbort mode)
    rw [TargetThread.mcTransparentAbort, List.append_assoc, List.append_assoc]
    refine follows_checkInFirst rfl fun mailbox => ?_
    exact follows_write_wake rfl (follows_write_wake rfl ⟨_, rfl, trivial⟩)
  | returns =>
    show Follows _ _ (TargetThread.mcThreadRoutineReturn mode)
    rw [callingDuty, TargetThread.mcThreadRoutineReturn]
    by_cases hmode : mode.isInRestartMode
    · rw [if_pos hmode, if_pos hmode, List.cons_append, List.cons_append, List.append_assoc]
      -- the thread waits once more before it has reported
      refine ⟨_, rfl, follows_threadHandleAfterDmtcpRestart hmode ⟨_, rfl, ?_⟩⟩
      exact ⟨_, rfl, _, rfl, follows_stuck⟩
    · rw [if_neg hmode, if_neg hmode]
      exact follows_mcExitThreadInChild

end Follows

/-! ### The handshake -/

/-- The thread and McMini while the thread has the duty. A thread which waits has been given a
permit, or has reported, or is not executed. -/
def Duty.Fits (st : TargetThread.State) : Duty → Prop
  | .restarting => st.mode.isInRestartMode = true ∧ st.executing = false ∧ st.childSideSem = 0 ∧
      st.modelSideSem = 0 ∧ st.hasCheckedIn = false
  | .waiting => (st.executing = true → st.mode.isInRestartMode = false) ∧
      st.childSideSem + st.modelSideSem = (if st.executing then 1 else 0) ∧
      (st.modelSideSem = 0 → st.pending = st.mailbox)
  | .owing call => st.mode.isInRestartMode = false ∧ st.executing = true ∧ st.childSideSem = 0 ∧
      st.modelSideSem = 0 ∧ ∀ f, call = some f → callOf st.pending = some f
  | .stuck => False

/-- The thread has to do this next. -/
structure OnDuty (st : TargetThread.State) (d : Duty) : Prop where
  follows : Follows d st.mailbox st.code
  fits : d.Fits st

section OnDuty

variable {t : TargetThread.Thread} {mode : Mode} {st st' : TargetThread.State}
  {a : TargetThread.Action} {i : Instr} {code : List Instr} {d d' : Duty}

theorem advances_mailbox (hcode : st.code = i :: code) (hstep : st.advance = some st') :
    st'.mailbox = mailboxAfter st.mailbox i ∧
      st'.modelSideSem = st.modelSideSem + if i = .wakeScheduler then 1 else 0 := by
  rw [TargetThread.State.advance, hcode] at hstep
  cases i with
  | stop => cases hstep
  | waitForScheduler | waitForBranch =>
    obtain ⟨-, hstep⟩ := Option.ite_none_right_eq_some.mp hstep
    rw [← Option.some.inj hstep]
    exact ⟨rfl, rfl⟩
  | write | wakeScheduler | notifyTemplateThread | rest | waitForExitPermission | lib | create
  | assert =>
    rw [← Option.some.inj hstep]
    exact ⟨rfl, rfl⟩

/-- An instruction which has nothing to do with the handshake leaves the duty as it is, apart from
the call which was owed. -/
theorem after_eq_some (hd : d.after mailbox i = some d') (hwait : i ≠ .waitForScheduler)
    (hwake : i ≠ .wakeScheduler) (hnotify : i ≠ .notifyTemplateThread) :
    d' = d ∧ (∀ f, d ≠ .owing (some f)) ∧ (d = .waiting → mailboxAfter mailbox i = mailbox) ∨
      ∃ f, d = .owing (some f) ∧ i = .lib f ∧ d' = .owing none := by
  cases d with
  | stuck => exact .inl ⟨(Option.some.inj hd).symm, nofun, nofun⟩
  | restarting =>
    cases i with
    | notifyTemplateThread => exact absurd rfl hnotify
    | write | create | rest | assert => exact .inl ⟨(Option.some.inj hd).symm, nofun, nofun⟩
    | wakeScheduler | waitForScheduler | waitForBranch | waitForExitPermission | lib | stop =>
      cases hd
  | waiting =>
    cases i with
    | waitForScheduler => exact absurd rfl hwait
    | rest | waitForBranch | waitForExitPermission =>
      exact .inl ⟨(Option.some.inj hd).symm, nofun, fun _ => rfl⟩
    | lib f =>
      obtain ⟨-, hd⟩ := Option.ite_none_left_eq_some.mp hd
      exact .inl ⟨(Option.some.inj hd).symm, nofun, fun _ => rfl⟩
    | write | wakeScheduler | notifyTemplateThread | create | assert | stop => cases hd
  | owing call =>
    cases call with
    | some f =>
      cases i with
      | lib g =>
        obtain ⟨rfl, hd'⟩ := Option.ite_none_right_eq_some.mp hd
        exact .inr ⟨g, rfl, rfl, (Option.some.inj hd').symm⟩
      | _ => cases hd
    | none =>
      cases i with
      | wakeScheduler => exact absurd rfl hwake
      | waitForScheduler => exact absurd rfl hwait
      | lib f =>
        obtain ⟨-, hd⟩ := Option.ite_none_left_eq_some.mp hd
        exact .inl ⟨(Option.some.inj hd).symm, nofun, nofun⟩
      | write | rest | create | assert | waitForExitPermission =>
        exact .inl ⟨(Option.some.inj hd).symm, nofun, nofun⟩
      | notifyTemplateThread | waitForBranch | stop => cases hd

/-- The rest of the handshake. -/
theorem Duty.Fits.of_advances (h : d.Fits st) (hadv : TargetThread.Advances st st' i code)
    (hmailbox : d = .waiting → st'.mailbox = st.mailbox)
    (hmodel : st'.modelSideSem = st.modelSideSem) (hwait : i ≠ .waitForScheduler)
    (hnotify : i ≠ .notifyTemplateThread) : d.Fits st' := by
  have hchild := hadv.childSideSem hwait
  obtain ⟨hpending, hchecked⟩ := hadv.pending hnotify
  cases d with
  | stuck => exact h
  | restarting =>
    obtain ⟨hmode, hexecuting, hchild₀, hmodel₀, hchecked₀⟩ := h
    exact ⟨hadv.mode ▸ hmode, hadv.executing.trans hexecuting, hchild.trans hchild₀,
      hmodel.trans hmodel₀, hchecked.trans hchecked₀⟩
  | waiting =>
    obtain ⟨hmode, hunits, hsame⟩ := h
    refine ⟨fun h => hadv.mode ▸ hmode (hadv.executing ▸ h), ?_, fun h => ?_⟩
    · rw [hchild, hmodel, hadv.executing]
      exact hunits
    · rw [hpending, hmailbox rfl]
      exact hsame (hmodel ▸ h)
  | owing call =>
    obtain ⟨hmode, hexecuting, hchild₀, hmodel₀, hcall⟩ := h
    exact ⟨hadv.mode ▸ hmode, hadv.executing.trans hexecuting, hchild.trans hchild₀,
      hmodel.trans hmodel₀, fun f hf => hpending ▸ hcall f hf⟩

/-- The next instruction fits what the thread has to do after it. -/
theorem Duty.Fits.advance (h : d.Fits st) (hd : d.after st.mailbox i = some d')
    (hadv : TargetThread.Advances st st' i code)
    (hmailbox : st'.mailbox = mailboxAfter st.mailbox i)
    (hmodel : st'.modelSideSem = st.modelSideSem + if i = .wakeScheduler then 1 else 0) :
    d'.Fits st' := by
  by_cases hwait : i = .waitForScheduler
  · -- the permit, which only a thread can have got that waits
    subst hwait
    obtain ⟨hpermit, -⟩ := hadv.permit rfl
    rw [if_neg nofun, Nat.add_zero] at hmodel
    cases d with
    | stuck => exact h.elim
    | restarting => cases hd
    | waiting =>
      obtain ⟨hmode, hunits, hpending⟩ := h
      obtain rfl := Option.some.inj hd
      have hexecuting : st.executing = true := by
        by_contra hexecuting
        rw [if_neg hexecuting] at hunits
        omega
      rw [if_pos hexecuting] at hunits
      refine ⟨hadv.mode ▸ hmode hexecuting, hadv.executing ▸ hexecuting, by omega, by omega, ?_⟩
      intro f hf
      rw [(hadv.pending nofun).1, hpending (by omega)]
      exact hf
    | owing call =>
      obtain ⟨-, -, hchild, -, -⟩ := h
      omega
  -- the answer, which only a thread owes that has no call left
  by_cases hwake : i = .wakeScheduler
  · subst hwake
    rw [if_pos rfl] at hmodel
    cases d with
    | stuck => exact h.elim
    | restarting | waiting => cases hd
    | owing call =>
      cases call with
      | some f => cases hd
      | none =>
        obtain ⟨hmode, hexecuting, hchild, hzero, -⟩ := h
        obtain rfl := Option.some.inj hd
        refine ⟨fun _ => hadv.mode ▸ hmode, ?_, fun h => by omega⟩
        rw [hadv.childSideSem hwait, hmodel, hadv.executing, hchild, hzero, if_pos hexecuting]
  -- the check-in, after which the mailbox is not written any more
  by_cases hnotify : i = .notifyTemplateThread
  · subst hnotify
    cases d with
    | stuck => exact h.elim
    | waiting => cases hd
    | owing call => cases call <;> cases hd
    | restarting =>
      obtain ⟨hmode, hexecuting, hchild, hzero, -⟩ := h
      obtain rfl := Option.some.inj hd
      refine ⟨fun h => ?_, ?_, fun _ => (hadv.checksIn rfl).1.trans hmailbox.symm⟩
      · rw [hadv.executing, hexecuting] at h
        cases h
      · rw [hadv.childSideSem hwait, hmodel, hadv.executing, hchild, hzero, hexecuting]
        rfl
  rw [if_neg hwake, Nat.add_zero] at hmodel
  obtain ⟨rfl, -, hsame⟩ | ⟨f, rfl, rfl, rfl⟩ := after_eq_some hd hwait hwake hnotify
  -- all other instructions leave the duty, or are the call which is owed
  · exact h.of_advances hadv (fun hd => hmailbox.trans (hsame hd)) hmodel hwait hnotify
  · obtain ⟨hmode, hexecuting, hchild, hzero, -⟩ := h
    have h : (Duty.owing none).Fits st := ⟨hmode, hexecuting, hchild, hzero, nofun⟩
    exact h.of_advances hadv nofun hmodel hwait hnotify

/-- Nothing is left to do for a thread which ends or blocks, unless it owes a call. -/
theorem follows_rest {r : TargetThread.Rest} (hd : ∀ f, d ≠ .owing (some f)) :
    Follows d mailbox [.rest r, .stop] := by
  cases d with
  | restarting | waiting | stuck => exact ⟨_, rfl, trivial⟩
  | owing call =>
    cases call with
    | none => exact ⟨_, rfl, trivial⟩
    | some f => exact absurd rfl (hd f)

/-- **The next instruction.** -/
theorem OnDuty.advance (h : OnDuty st d) (hstep : st.advance = some st') :
    ∃ i d', st.code.head? = some i ∧ d.after st.mailbox i = some d' ∧ OnDuty st' d' := by
  obtain ⟨i, code, hadv⟩ := TargetThread.exists_advances hstep
  obtain ⟨hmailbox, hmodel⟩ := advances_mailbox hadv.code_eq hstep
  have hfollows := h.follows
  rw [hadv.code_eq, follows_cons hadv.ne_stop] at hfollows
  obtain ⟨d', hd, hfollows⟩ := hfollows
  rw [← hmailbox] at hfollows
  refine ⟨i, d', by rw [hadv.code_eq, List.head?_cons], hd, ?_,
    h.fits.advance hd hadv hmailbox hmodel⟩
  rcases hadv.code_eq_or with hcode | hcode
  · rwa [hcode]
  · rw [hcode]
    by_cases howing : ∃ f, d' = .owing (some f)
    · -- only a thread which waits gets to owe a call, and it goes on with its code
      obtain ⟨f, rfl⟩ := howing
      have hwait : i = .waitForScheduler := by
        by_contra hwait
        have hwake : i ≠ .wakeScheduler := by
          rintro rfl
          cases d with
          | owing call => cases call <;> cases hd
          | _ => cases hd
        have hnotify : i ≠ .notifyTemplateThread := by
          rintro rfl
          cases d with
          | owing call => cases call <;> cases hd
          | _ => cases hd
        obtain ⟨rfl, hne, -⟩ | ⟨_, -, -, heq⟩ := after_eq_some hd hwait hwake hnotify
        · exact hne f rfl
        · cases heq
      rw [← hcode, (hadv.permit hwait).2]
      exact hfollows
    · exact follows_rest fun f hf => howing ⟨f, hf⟩

theorem OnDuty.mono (h : OnDuty st d) (hcode : Follows d st'.mailbox st'.code)
    (hmode : st'.mode = st.mode) (hmailbox : st'.mailbox = st.mailbox)
    (hexecuting : st'.executing = st.executing) (hchild : st'.childSideSem = st.childSideSem)
    (hmodel : st'.modelSideSem = st.modelSideSem) (hpending : st'.pending = st.pending)
    (hchecked : st'.hasCheckedIn = st.hasCheckedIn) : OnDuty st' d := by
  refine ⟨hcode, ?_⟩
  have hfits := h.fits
  cases d with
  | stuck => exact hfits
  | restarting | waiting | owing call =>
    simp only [Duty.Fits, hmode, hmailbox, hexecuting, hchild, hmodel, hpending, hchecked]
      at hfits ⊢
    exact hfits

/-- A call which is owed does not block. -/
theorem mayBlock_of_callOf {m : Option MailboxContents} {f : LibCall} (h : callOf m = some f) :
    f.mayBlock = false := by
  rcases m with _ | contents
  · cases h
  · cases contents <;> cases h <;> rfl

/-- What a thread does on its own, other than the next instruction. -/
theorem OnDuty.goOn (h : OnDuty st d) (hstep : TargetThread.step t a st = some st')
    (ha : (∃ c, a = .call c) ∨ a = .createFails ∨ a = .hangs) :
    OnDuty st' d ∧ st'.executing = st.executing ∧ st'.mode = st.mode ∧
      st'.pending = st.pending ∧ st'.modelSideSem = st.modelSideSem := by
  have hfollows := h.follows
  obtain ⟨c, rfl⟩ | rfl | rfl := ha
  · obtain ⟨⟨hcode, -⟩, hstep⟩ := Option.ite_none_right_eq_some.mp hstep
    obtain rfl := Option.some.inj hstep
    rw [hcode] at hfollows
    refine ⟨h.mono ?_ rfl rfl rfl rfl rfl rfl ?_, rfl, rfl, rfl, rfl⟩
    · have hduty : callingDuty st.mode = d := by
        have hfits := h.fits
        cases d with
        | stuck => exact hfits.elim
        | restarting => exact if_pos hfits.1
        | waiting => cases hfollows
        | owing call =>
          cases call with
          | some f => cases hfollows
          | none =>
            rw [callingDuty, if_neg]
            rw [hfits.1]
            exact Bool.false_ne_true
      exact hduty ▸ follows_code t st.mode c
    · simp [TargetThread.State.hasCheckedIn]
  · rw [TargetThread.step] at hstep
    split at hstep
    next heq =>
      obtain rfl := Option.some.inj hstep
      rw [heq] at hfollows
      refine ⟨h.mono (follows_rest ?_) rfl rfl rfl rfl rfl rfl rfl, rfl, rfl, rfl, rfl⟩
      rintro f rfl
      obtain ⟨d', hd, -⟩ := hfollows
      cases hd
    · cases hstep
  · rw [TargetThread.step] at hstep
    split at hstep
    next f _ heq =>
      obtain ⟨hblock, hstep⟩ := Option.ite_none_right_eq_some.mp hstep
      obtain rfl := Option.some.inj hstep
      rw [heq] at hfollows
      refine ⟨h.mono (follows_rest ?_) rfl rfl rfl rfl rfl rfl rfl, rfl, rfl, rfl, rfl⟩
      -- the call which is owed does not hang
      rintro g rfl
      obtain ⟨d', hd, -⟩ := hfollows
      obtain ⟨rfl, -⟩ := Option.ite_none_right_eq_some.mp hd
      have hnot := mayBlock_of_callOf (h.fits.2.2.2.2 f rfl)
      rw [hblock] at hnot
      cases hnot
    · cases hstep

/-- McMini gives a permit to a thread which it does not execute. -/
theorem OnDuty.executeRunner (h : OnDuty st d)
    (hstep : TargetThread.step t .executeRunner st = some st') :
    OnDuty st' .waiting ∧ st'.executing = true ∧ st'.pending = st.pending ∧
      st'.modelSideSem = 0 := by
  obtain ⟨⟨hmode, hexecuting, -⟩, hstep⟩ := Option.ite_none_right_eq_some.mp hstep
  obtain rfl := Option.some.inj hstep
  obtain ⟨hfollows, hfits⟩ := h
  cases d with
  | stuck => exact hfits.elim
  | restarting => exact absurd hfits.1 hmode
  | owing call => exact absurd hfits.2.1 hexecuting
  | waiting =>
    obtain ⟨-, hunits, hpending⟩ := hfits
    rw [if_neg hexecuting] at hunits
    refine ⟨⟨hfollows, fun _ => Bool.eq_false_of_not_eq_true hmode, ?_, hpending⟩, rfl, rfl,
      (Nat.add_eq_zero_iff.mp hunits).2⟩
    show st.childSideSem + 1 + st.modelSideSem = 1
    omega

/-- McMini takes the report of a thread which has reported. -/
theorem OnDuty.receive (h : OnDuty st d) (hstep : TargetThread.step t .receive st = some st') :
    d = .waiting ∧ OnDuty st' .waiting ∧ 0 < st.modelSideSem ∧ st'.executing = false ∧
      st'.pending = st.mailbox := by
  obtain ⟨⟨hexecuting, hreport⟩, hstep⟩ := Option.ite_none_right_eq_some.mp hstep
  obtain rfl := Option.some.inj hstep
  obtain ⟨hfollows, hfits⟩ := h
  cases d with
  | stuck => exact hfits.elim
  | restarting =>
    have hidle := hfits.2.1
    rw [hexecuting] at hidle
    cases hidle
  | owing call =>
    have hzero := hfits.2.2.2.1
    omega
  | waiting =>
    obtain ⟨hmode, hunits, -⟩ := hfits
    rw [if_pos hexecuting] at hunits
    refine ⟨rfl, ⟨hfollows, nofun, ?_, fun _ => rfl⟩, hreport, rfl, rfl⟩
    show st.childSideSem + (st.modelSideSem - 1) = 0
    omega

/-- Until the mode changes, McMini does not execute a thread after a restart. -/
theorem onDuty_of_restart (hmode : mode.isInRestartMode = true) {acts : List TargetThread.Action}
    (hacts : .changeMode ∉ acts)
    (hrun : runFrom (TargetThread.step t) (TargetThread.start mode) acts = some st) :
    ∃ d, OnDuty st d ∧ st.executing = false := by
  have hinit : OnDuty (TargetThread.start mode) .restarting := by
    refine ⟨?_, hmode, rfl, rfl, rfl, rfl⟩
    show Follows .restarting none (TargetThread.mcThreadRoutineStart mode)
    rw [TargetThread.mcThreadRoutineStart, if_pos hmode]
    rfl
  have hinvariant : .changeMode ∉ acts →
      ∃ d, OnDuty st d ∧ st.executing = false ∧ st.mode = mode := by
    refine runFrom_induction (P := fun acts st => .changeMode ∉ acts →
      ∃ d, OnDuty st d ∧ st.executing = false ∧ st.mode = mode)
      (fun _ => ⟨_, hinit, rfl, rfl⟩) (fun acts st a st' _ ih hstep hacts => ?_) hrun
    obtain ⟨hnot, ha⟩ := not_or.mp (mt List.mem_append.mpr hacts)
    obtain ⟨d, hduty, hexecuting, heq⟩ := ih hnot
    cases a with
    | changeMode => exact absurd (List.mem_singleton_self _) ha
    | executeRunner =>
      obtain ⟨⟨hnot, -⟩, -⟩ := Option.ite_none_right_eq_some.mp hstep
      exact absurd (heq ▸ hmode) hnot
    | receive =>
      obtain ⟨⟨hnot, -⟩, -⟩ := Option.ite_none_right_eq_some.mp hstep
      rw [hexecuting] at hnot
      cases hnot
    | advance =>
      obtain ⟨i, code, hadv⟩ := TargetThread.exists_advances hstep
      obtain ⟨i, d', -, -, hduty'⟩ := hduty.advance hstep
      exact ⟨d', hduty', hadv.executing.trans hexecuting, hadv.mode.trans heq⟩
    | call c =>
      obtain ⟨hduty', hsame, hmode', -, -⟩ := hduty.goOn hstep (.inl ⟨c, rfl⟩)
      exact ⟨d, hduty', hsame.trans hexecuting, hmode'.trans heq⟩
    | createFails =>
      obtain ⟨hduty', hsame, hmode', -, -⟩ := hduty.goOn hstep (.inr (.inl rfl))
      exact ⟨d, hduty', hsame.trans hexecuting, hmode'.trans heq⟩
    | hangs =>
      obtain ⟨hduty', hsame, hmode', -, -⟩ := hduty.goOn hstep (.inr (.inr rfl))
      exact ⟨d, hduty', hsame.trans hexecuting, hmode'.trans heq⟩
  obtain ⟨d, hduty, hexecuting, -⟩ := hinvariant hacts
  exact ⟨d, hduty, hexecuting⟩

/-- A thread is not executed where the branch begins. -/
theorem onDuty_of_begins (h : Begins t st) : OnDuty st .waiting ∧ st.executing = false := by
  cases h with
  | @start mode hmode =>
    refine ⟨⟨?_, nofun, rfl, fun _ => rfl⟩, rfl⟩
    show Follows .waiting none (TargetThread.mcThreadRoutineStart mode)
    rw [TargetThread.mcThreadRoutineStart, hmode]
    exact ⟨_, rfl, _, rfl, rfl⟩
  | @checkedIn mode acts st hmode hrun hacts hchecked =>
    obtain ⟨d, hduty, hexecuting⟩ := onDuty_of_restart hmode hacts hrun
    cases d with
    | stuck => exact hduty.fits.elim
    | restarting =>
      have hnot := hduty.fits.2.2.2.2
      rw [hchecked] at hnot
      cases hnot
    | owing call =>
      have hnot := hduty.fits.2.1
      rw [hexecuting] at hnot
      cases hnot
    | waiting =>
      obtain ⟨-, hunits, hpending⟩ := hduty.fits
      exact ⟨⟨hduty.follows, fun _ => rfl, hunits, hpending⟩, hexecuting⟩

end OnDuty

end McMini.TargetBranch
