import McMini.Properties.Addresses
import McMini.Properties.MailboxPayloads
import McMini.Properties.ThreadDuties

/-!
# Real semaphores and their models

Whenever McMini executes no runner, the real value of a semaphore should be the count which the
model holds for it. Both change in one execution of a runner: the thread calls the thread library
when it has its permit, and the model executes the pending transition when the thread has reported
again. The two agree when the call is the one which the transition stands for.

* **One execution.** While McMini executes a thread the real semaphores are as the model has them,
  before or after the call which the thread owes (`Duty.Matches`). When the model executes the
  operation, the values agree again exactly if the operation is `harmless` (`agree_iff_harmless`).
* **Runs.** `mc_sem_wait` posts the semaphore which the model decrements. So the values agree in a
  whole run exactly if no semaphore is waited for, and no post meets the largest number of 32 bits
  (`semaphores_agree_iff`).
-/

namespace McMini.TargetBranch

open Coordinator Foundation
open TargetThread (Instr LibCall Call)

/-! ### The model -/

/-- The semaphores which `mc_sem_init` has initialized have the values which the model holds. -/
def Agree (semaphores : Semaphores) (c : Coordinator) : Prop :=
  ∀ a, semaphores.initialized a = true →
    ∃ x, c.objectAt a = some (.semaphore x) ∧ x.count.toNat = semaphores.value a

/-- The operation reads and changes no semaphore of the model. -/
def sparesSemaphores : Operation → Bool
  | .semInit _ _ | .semPost _ | .semWait _ => false
  | _ => true

/-- The operation which is pending in the model is the one which is described. -/
inductive Describes (c : Coordinator) : Option MailboxContents → Option Operation → Prop
  | semInit {a : Addr} {n : BitVec 32} {i : ObjId} (hi : c.systemAddressMapping.lookup a = some i) :
      Describes c (some (.semInit a n)) (some (.semInit i n))
  | semPost {a : Addr} {i : ObjId} (hi : c.systemAddressMapping.lookup a = some i) :
      Describes c (some (.semPost a)) (some (.semPost i))
  | semWait {a : Addr} {i : ObjId} (hi : c.systemAddressMapping.lookup a = some i) :
      Describes c (some (.semWait a)) (some (.semWait i))
  | other {m : Option MailboxContents} {o : Option Operation} (hm : callOf m = none)
      (ho : ∀ op, o = some op → sparesSemaphores op = true) : Describes c m o

/-- The count which the model holds for the semaphore at the address. -/
def countAt (c : Coordinator) (a : Addr) : Option (BitVec 32) :=
  match c.objectAt a with
  | some (.semaphore x) => some x.count
  | _ => none

/-- The operation does not wait for a semaphore which `mc_sem_init` has initialized, and posts none
whose count is the largest number of 32 bits. -/
def harmless (semaphores : Semaphores) (c : Coordinator) : Option MailboxContents → Bool
  | some (.semWait a) => !semaphores.initialized a
  | some (.semPost a) => !semaphores.initialized a || countAt c a != some (.allOnes 32)
  | _ => true

section Model

variable {c c' c₁ : Coordinator} {p : RunnerId} {m : Option MailboxContents}
  {contents : MailboxContents} {o : Option Operation} {t next : Transition}
  {semaphores semaphores' : Semaphores} {a b : Addr} {i j : ObjId}

theorem Describes.keeps (h : Describes c m o) (hkeeps : Keeps c c') : Describes c' m o := by
  have hlookup : ∀ {a i}, c.systemAddressMapping.lookup a = some i →
      c'.systemAddressMapping.lookup a = some i :=
    fun hi => hkeeps.addresses _ _ hi
  cases h with
  | semInit hi => exact .semInit (hlookup hi)
  | semPost hi => exact .semPost (hlookup hi)
  | semWait hi => exact .semWait (hlookup hi)
  | other hm ho => exact .other hm ho

/-- A callback answers with the operation which is described. -/
theorem describes_callback (hm : Mapped c)
    (hlength : c.getStateSequence.visibleObjects.length ≤ objidInvalid)
    (hrun : (callback p contents).run c = (.ok t, c₁)) :
    Describes c₁ (some contents) (some t.op) := by
  -- most operations are not about semaphores, neither as reported nor as translated
  have hother : ∀ {op : Coordinator → Operation} {accepted : Prop},
      Mailbox.Returns p (callback p contents) op accepted c → callOf (some contents) = none →
      sparesSemaphores (op c₁) = true → Describes c₁ (some contents) (some t.op) := by
    intro op accepted hreturns hcall hspares
    refine .other hcall fun op' hop' => ?_
    rw [← Option.some.inj hop', hreturns.eq_of_ok t c₁ hrun]
    exact hspares
  -- the two operations on an existing semaphore need one which has been observed
  have hrequire : ∀ {address : Addr} {message : String} {op : ObjId → Operation},
      callback p contents = (requireObserved address message >>= fun _ =>
        modelOf address >>= fun i => pure ⟨p, op i⟩) →
      ∃ i, c₁.systemAddressMapping.lookup address = some i ∧ t.op = op i := by
    intro address message op heq
    rw [heq, run_bind, requireObserved_run] at hrun
    by_cases hknown : c.contains address = true
    · rw [if_pos hknown] at hrun
      obtain ⟨ht, rfl⟩ := Prod.mk.inj hrun
      exact ⟨_, lookup_getModelOfObject hknown, by rw [← Except.ok.inj ht]⟩
    · rw [if_neg hknown] at hrun
      cases (Prod.mk.inj hrun).1
  cases contents with
  | mutexInit a | condInit a => exact hother Mailbox.returns_ensureObserved rfl rfl
  | mutexLock a | condSignal a | condBroadcast a =>
    exact hother Mailbox.returns_ensureInitialized rfl rfl
  | mutexUnlock a | condDestroy a => exact hother Mailbox.returns_requireObserved rfl rfl
  | condEnqueue a m => exact hother Mailbox.returns_condEnqueue rfl rfl
  | condWait a m => exact hother Mailbox.returns_condWait rfl rfl
  | threadCreate a => exact hother Mailbox.returns_threadCreate rfl rfl
  | threadJoin target => exact hother Mailbox.returns_threadJoin rfl rfl
  | threadExit =>
    exact @hother (fun _ => .threadExit) True (Mailbox.returns_of_ok rfl trivial) rfl rfl
  | processExit n =>
    exact @hother (fun _ => .processExit n) True (Mailbox.returns_of_ok rfl trivial) rfl rfl
  | processAbort =>
    exact @hother (fun _ => .processAbort) True (Mailbox.returns_of_ok rfl trivial) rfl rfl
  | unregistered n => cases (Prod.mk.inj hrun).1
  | semDestroy a =>
    rw [callback, semDestroyCallback, run_bind, requireObserved_run] at hrun
    by_cases hknown : c.contains a = true
    · rw [if_pos hknown] at hrun
      cases (Prod.mk.inj hrun).1
    · rw [if_neg hknown] at hrun
      cases (Prod.mk.inj hrun).1
  | semPost a =>
    obtain ⟨i, hi, hop⟩ := hrequire rfl
    rw [hop]
    exact .semPost hi
  | semWait a =>
    obtain ⟨i, hi, hop⟩ := hrequire rfl
    rw [hop]
    exact .semWait hi
  | semInit a n =>
    rw [callback, semInitCallback, run_bind, ensureObserved_run] at hrun
    by_cases hknown : c.contains a = true
    · rw [if_pos hknown] at hrun
      obtain ⟨ht, rfl⟩ := Prod.mk.inj hrun
      rw [← Except.ok.inj ht]
      exact .semInit (lookup_getModelOfObject hknown)
    · rw [if_neg hknown] at hrun
      obtain ⟨ht, rfl⟩ := Prod.mk.inj hrun
      have hlookup : (c.observe a (.semaphore {})).systemAddressMapping.lookup a =
          some (c.getStateSequence.addObject (.semaphore {})).2 := by
        -- a semaphore which is not known becomes a new object, and its address is in the map then
        have hunknown := hm.lookup_eq_none hlength (Bool.eq_false_of_not_eq_true hknown)
        rw [Coordinator.observe, insertAddress_of_unknown hunknown, lookup_insert, if_pos rfl]
      rw [← Except.ok.inj ht]
      refine .semInit ?_
      rw [Coordinator.getModelOfObject, hlookup]
      rfl

/-! ### Executing the operation -/

theorem Agree.keeps (h : Agree semaphores c) (hkeeps : Keeps c c') (hm : Mapped c) :
    Agree semaphores c' := by
  intro a ha
  obtain ⟨x, hx, hcount⟩ := h a ha
  exact ⟨x, hkeeps.objectAt hm hx, hcount⟩

/-- The semaphores, when the thread has called what the operation stands for. -/
def Semaphores.called (semaphores : Semaphores) (m : Option MailboxContents) : Semaphores :=
  (callOf m).elim semaphores semaphores.call

/-- The operation is none on the semaphore `i`. -/
def Avoids (op : Operation) (i : ObjId) : Prop :=
  (∀ n, op ≠ .semInit i n) ∧ op ≠ .semPost i ∧ op ≠ .semWait i

theorem avoids_of_spares {op : Operation} (h : sparesSemaphores op = true) : Avoids op i := by
  refine ⟨?_, ?_, ?_⟩
  · rintro n rfl
    cases h
  · rintro rfl
    cases h
  · rintro rfl
    cases h

/-- Semaphores which are avoided keep their values. -/
theorem agreeAt_of_avoids (hmapping : c'.systemAddressMapping = c.systemAddressMapping)
    (hstep : Step c.getStateSequence.toState next c'.getStateSequence.toState)
    (hagree : Agree semaphores c) (hb : semaphores.initialized b = true)
    (havoids : ∀ i, c.systemAddressMapping.lookup b = some i → Avoids next.op i) :
    ∃ x, c'.objectAt b = some (.semaphore x) ∧ x.count.toNat = semaphores.value b := by
  obtain ⟨x, hx, hcount⟩ := hagree b hb
  obtain ⟨i, hi, hx⟩ := Option.bind_eq_some_iff.mp hx
  obtain ⟨hinit, hpost, hwait⟩ := havoids i hi
  obtain ⟨x', hx', heffect⟩ := hstep.semaphore hx
  have hsame : x' = x := by
    cases heffect with
    | unrelated => rfl
    | init hop => exact absurd hop (hinit _)
    | post hop => exact absurd hop hpost
    | wait hop => exact absurd hop hwait
  exact ⟨x, by rw [Coordinator.objectAt, hmapping, hi, Option.bind_some, hx', hsame], hcount⟩

/-- An operation on the semaphore at one address leaves those at the others alone. -/
theorem avoids_of_mapped (hm : Mapped c) (hi : c.systemAddressMapping.lookup a = some i)
    (hb : b ≠ a) {op : Operation} (hop : (∃ n, op = .semInit i n) ∨ op = .semPost i ∨ op = .semWait i) :
    ∀ j, c.systemAddressMapping.lookup b = some j → Avoids op j := by
  intro j hj
  have hne : j ≠ i := fun heq => hb (hm.injective b a i (heq ▸ hj) hi)
  obtain ⟨n, rfl⟩ | rfl | rfl := hop
  · exact ⟨fun n' h => hne (Operation.semInit.inj h).1.symm, nofun, nofun⟩
  · exact ⟨nofun, fun h => hne (Operation.semPost.inj h).symm, nofun⟩
  · exact ⟨nofun, nofun, fun h => hne (Operation.semWait.inj h).symm⟩

theorem harmless_of_callOf (h : callOf m = none) : harmless semaphores c m = true := by
  rcases m with _ | contents
  · rfl
  · cases contents with
    | semPost a | semWait a => cases h
    | _ => rfl

theorem countAt_eq {x : Semaphore} (hx : c.objectAt a = some (.semaphore x)) :
    countAt c a = some x.count := by
  rw [countAt, hx]

theorem harmless_semPost_iff : harmless semaphores c (some (.semPost a)) = true ↔
    (semaphores.initialized a = true → countAt c a ≠ some (.allOnes 32)) := by
  rw [harmless, Bool.or_eq_true, Bool.not_eq_true', bne_iff_ne, ← Bool.not_eq_true]
  exact imp_iff_not_or.symm

/-- What the model has for a semaphore on which it has executed the operation. -/
theorem objectAt_of_step (hi : c.systemAddressMapping.lookup a = some i)
    (hmapping : c'.systemAddressMapping = c.systemAddressMapping) {o : VisibleObjectState}
    (ho : c'.getStateSequence.toState.objectState i = some o) : c'.objectAt a = some o := by
  rw [Coordinator.objectAt, hmapping, hi, Option.bind_some, ho]

theorem objectState_of_semInit {s s' : McMini.State} {q : RunnerId} {n : BitVec 32}
    (h : Step s ⟨q, .semInit i n⟩ s') : s'.objectState i = some (.semaphore (.ofCount n)) := by
  cases h with
  | semInit => exact State.setObjectState_self

/-- A post counts up in the model. -/
theorem objectAt_of_semPost {q : RunnerId} (hi : c.systemAddressMapping.lookup a = some i)
    (hmapping : c'.systemAddressMapping = c.systemAddressMapping)
    (hstep : Step c.getStateSequence.toState ⟨q, .semPost i⟩ c'.getStateSequence.toState)
    {x : Semaphore} (hx : c.objectAt a = some (.semaphore x)) :
    c'.objectAt a = some (.semaphore (.ofCount (x.count + 1))) := by
  rw [Coordinator.objectAt, hi, Option.bind_some] at hx
  obtain ⟨x', hx', heffect⟩ := hstep.semaphore hx
  rw [objectAt_of_step hi hmapping hx']
  cases heffect with
  | unrelated _ hop _ => exact absurd rfl hop
  | init hop => cases hop
  | post hop => rfl
  | wait hop => cases hop

/-- A wait counts down. -/
theorem objectAt_of_semWait {q : RunnerId} (hi : c.systemAddressMapping.lookup a = some i)
    (hmapping : c'.systemAddressMapping = c.systemAddressMapping)
    (hstep : Step c.getStateSequence.toState ⟨q, .semWait i⟩ c'.getStateSequence.toState)
    {x : Semaphore} (hx : c.objectAt a = some (.semaphore x)) :
    c'.objectAt a = some (.semaphore (.ofCount (x.count - 1))) := by
  rw [Coordinator.objectAt, hi, Option.bind_some] at hx
  obtain ⟨x', hx', heffect⟩ := hstep.semaphore hx
  rw [objectAt_of_step hi hmapping hx']
  cases heffect with
  | unrelated _ _ hop => exact absurd rfl hop
  | init hop => cases hop
  | post hop => cases hop
  | wait hop _ => rfl

theorem toNat_add_one_iff {n : BitVec 32} : (n + 1).toNat = n.toNat + 1 ↔ n ≠ .allOnes 32 := by
  have hmax : BitVec.allOnes 32 = 4294967295#32 := rfl
  rw [hmax]
  bv_omega

theorem toNat_sub_one_ne {n : BitVec 32} : (n - 1).toNat ≠ n.toNat + 1 := by
  bv_omega

/-- What the posts of the thread make of the semaphores. -/
theorem agree_post_iff {m : MailboxContents} (hpost : callOf (some m) = some (.semPost a))
    (hothers : ∀ b, b ≠ a → semaphores.initialized b = true →
      ∃ x, c'.objectAt b = some (.semaphore x) ∧ x.count.toNat = semaphores.value b) :
    Agree (semaphores.called (some m)) c' ↔ (semaphores.initialized a = true →
      ∃ x, c'.objectAt a = some (.semaphore x) ∧ x.count.toNat = semaphores.value a + 1) := by
  have hcalled : semaphores.called (some m) = ⟨Function.update semaphores.value a
      (semaphores.value a + 1), semaphores.initialized⟩ := by
    rw [Semaphores.called, hpost]
    rfl
  rw [hcalled, Agree]
  constructor
  · intro h hinit
    obtain ⟨x, hx, hcount⟩ := h a hinit
    exact ⟨x, hx, hcount.trans (Function.update_self ..)⟩
  · intro h b hb
    by_cases heq : b = a
    · subst heq
      obtain ⟨x, hx, hcount⟩ := h hb
      refine ⟨x, hx, ?_⟩
      show x.count.toNat = Function.update semaphores.value b (semaphores.value b + 1) b
      rw [hcount, Function.update_self]
    · obtain ⟨x, hx, hcount⟩ := hothers b heq hb
      refine ⟨x, hx, ?_⟩
      show x.count.toNat = Function.update semaphores.value a (semaphores.value a + 1) b
      rw [hcount, Function.update_of_ne heq]

/-- **Executing an operation.** If the values agree before it, they do so afterwards, when the
thread has called what the operation stands for, exactly if it is harmless. -/
theorem agree_iff_harmless (hm : Mapped c) (hdescribes : Describes c m (some next.op))
    (hmapping : c'.systemAddressMapping = c.systemAddressMapping)
    (hstep : Step c.getStateSequence.toState next c'.getStateSequence.toState)
    (hagree : Agree semaphores c) :
    Agree (semaphores.called m) c' ↔ harmless semaphores c m = true := by
  obtain ⟨q, op⟩ := next
  cases hdescribes with
  | other hm ho =>
    rw [Semaphores.called, hm]
    refine ⟨fun _ => harmless_of_callOf hm, fun _ b hb => ?_⟩
    exact agreeAt_of_avoids hmapping hstep hagree hb fun i _ => avoids_of_spares (ho op rfl)
  | @semInit a n i hi =>
    refine ⟨fun _ => rfl, fun _ b hb => ?_⟩
    show ∃ x, c'.objectAt b = some (.semaphore x) ∧
      x.count.toNat = Function.update semaphores.value a n.toNat b
    by_cases heq : b = a
    · rw [heq, Function.update_self]
      exact ⟨.ofCount n, objectAt_of_step hi hmapping (objectState_of_semInit hstep), rfl⟩
    · change Function.update semaphores.initialized a true b = true at hb
      rw [Function.update_of_ne heq] at hb ⊢
      exact agreeAt_of_avoids hmapping hstep hagree hb
        (avoids_of_mapped hm hi heq (.inl ⟨n, rfl⟩))
  | @semPost a i hi =>
    rw [agree_post_iff rfl fun b heq hb => agreeAt_of_avoids hmapping hstep hagree hb
      (avoids_of_mapped hm hi heq (.inr (.inl rfl))), harmless_semPost_iff]
    refine forall_congr' fun hinit => ?_
    obtain ⟨x, hx, hcount⟩ := hagree a hinit
    rw [countAt_eq hx, objectAt_of_semPost hi hmapping hstep hx, ← hcount]
    simp only [ne_eq, Option.some.injEq, VisibleObjectState.semaphore.injEq, exists_eq_left']
    exact toNat_add_one_iff
  | @semWait a i hi =>
    rw [agree_post_iff rfl fun b heq hb => agreeAt_of_avoids hmapping hstep hagree hb
      (avoids_of_mapped hm hi heq (.inr (.inr rfl)))]
    rw [harmless, Bool.not_eq_true']
    constructor
    · intro h
      refine Bool.eq_false_of_not_eq_true fun hinit => ?_
      obtain ⟨x, hx, hcount⟩ := hagree a hinit
      have hcount' := h hinit
      rw [objectAt_of_semWait hi hmapping hstep hx, ← hcount] at hcount'
      simp only [Option.some.injEq, VisibleObjectState.semaphore.injEq, exists_eq_left'] at hcount'
      exact toNat_sub_one_ne hcount'
    · intro h hinit
      rw [h] at hinit
      cases hinit

end Model

/-! ### The branch -/

/-- The thread has called what its operation stands for since the values agreed. -/
def Called (semaphores : Semaphores) (c : Coordinator) (m : Option MailboxContents) : Prop :=
  ∃ before : Semaphores, Agree before c ∧ semaphores = before.called m

/-- The values while McMini executes the thread. -/
def Duty.Matches (semaphores : Semaphores) (c : Coordinator) (st : TargetThread.State) :
    Duty → Prop
  | .waiting => if st.modelSideSem = 0 then Agree semaphores c else Called semaphores c st.pending
  | .owing (some _) => Agree semaphores c
  | .owing none => Called semaphores c st.pending
  | .restarting | .stuck => False

/-- What holds in a branch whose operations have been harmless. -/
structure Sound (s : State) : Prop where
  mapped : Mapped s.coordinator
  described : ∀ p, Describes s.coordinator (s.threads p).pending
    ((s.coordinator.currentProgramModel.nextSteps.lookup p).map (·.op))
  idle : ∀ p, s.scheduled ≠ some p →
    OnDuty (s.threads p) .waiting ∧ (s.threads p).executing = false
  running : ∀ p, s.scheduled = some p → ∃ d, OnDuty (s.threads p) d ∧
    (s.threads p).executing = true ∧ d.Matches s.semaphores s.coordinator (s.threads p)
  agree : s.scheduled = none → Agree s.semaphores s.coordinator

section Branch

variable {s s' : State} {a : Action} {p q : RunnerId} {c c' c₁ : Coordinator}
  {st st' : TargetThread.State} {d d' : Duty} {i : Instr} {code : List Instr} {f : LibCall}
  {semaphores : Semaphores} {mailbox m : Option MailboxContents}

theorem call_of_not_changes (h : changesSemaphores f = false) : semaphores.call f = semaphores := by
  cases f with
  | semInit | semPost | semDestroy => cases h
  | _ => rfl

/-- A call which is not owed changes nothing. -/
theorem call_eq_of_after (hd : d.after mailbox (.lib f) = some d') (hstuck : d ≠ .stuck) :
    semaphores.call f = semaphores ∧ d' = d ∨ d = .owing (some f) ∧ d' = .owing none := by
  cases d with
  | stuck => exact absurd rfl hstuck
  | restarting => cases hd
  | waiting =>
    obtain ⟨hf, hd⟩ := Option.ite_none_left_eq_some.mp hd
    exact .inl ⟨call_of_not_changes (Bool.eq_false_of_not_eq_true hf), (Option.some.inj hd).symm⟩
  | owing call =>
    cases call with
    | none =>
      obtain ⟨hf, hd⟩ := Option.ite_none_left_eq_some.mp hd
      exact .inl ⟨call_of_not_changes (Bool.eq_false_of_not_eq_true hf), (Option.some.inj hd).symm⟩
    | some g =>
      obtain ⟨rfl, hd'⟩ := Option.ite_none_right_eq_some.mp hd
      exact .inr ⟨rfl, (Option.some.inj hd').symm⟩

/-- The semaphores after an instruction. -/
def Semaphores.after (semaphores : Semaphores) : Instr → Semaphores
  | .lib f => semaphores.call f
  | _ => semaphores

theorem execute_eq (h : (s.threads p).code.head? = some i) :
    s.execute p = s.semaphores.after i := by
  rw [State.execute]
  obtain ⟨code, hcode⟩ : ∃ code, (s.threads p).code = i :: code := by
    rcases hcode : (s.threads p).code with _ | ⟨j, code⟩
    · rw [hcode] at h
      cases h
    · rw [hcode] at h
      exact ⟨code, by rw [Option.some.inj h]⟩
  rw [hcode]
  cases i <;> rfl

theorem Duty.Matches.congr (h : d.Matches semaphores c st)
    (hmodel : st'.modelSideSem = st.modelSideSem) (hpending : st'.pending = st.pending) : d.Matches semaphores c st' := by
  cases d with
  | restarting | stuck => exact h
  | waiting =>
    rw [Duty.Matches, hmodel, hpending]
    exact h
  | owing call =>
    cases call with
    | some f => exact h
    | none =>
      rw [Duty.Matches, hpending]
      exact h

theorem called_of_callOf_eq_none (h : Agree semaphores c) (hm : callOf m = none) :
    Called semaphores c m :=
  ⟨semaphores, h, by rw [Semaphores.called, hm, Option.elim_none]⟩

/-- **What the next instruction does** while McMini executes the thread. -/
theorem Duty.Matches.advance (h : d.Matches semaphores c st) (hduty : OnDuty st d)
    (hduty' : OnDuty st' d') (hexecuting : st.executing = true)
    (hd : d.after st.mailbox i = some d') (hadv : TargetThread.Advances st st' i code)
    (hstep : st.advance = some st') : d'.Matches (semaphores.after i) c st' := by
  have hmodel := (advances_mailbox hadv.code_eq hstep).2
  have hstuck : d ≠ .stuck := by
    rintro rfl
    exact h
  by_cases hwait : i = .waitForScheduler
  · -- the permit: the mailbox describes the operation
    subst hwait
    cases d with
    | restarting | stuck => exact h.elim
    | owing call =>
      cases call with
      | some f => cases hd
      | none =>
        obtain rfl := Option.some.inj hd
        exact hduty'.fits.elim
    | waiting =>
      obtain rfl := Option.some.inj hd
      obtain ⟨hpermit, -⟩ := hadv.permit rfl
      obtain ⟨-, hunits, hpending⟩ := hduty.fits
      rw [if_pos hexecuting] at hunits
      have hzero : st.modelSideSem = 0 := by omega
      rw [Duty.Matches, if_pos hzero] at h
      cases hcall : callOf st.mailbox with
      | some f => exact h
      | none =>
        refine called_of_callOf_eq_none h ?_
        rw [(hadv.pending nofun).1, hpending hzero, hcall]
  by_cases hwake : i = .wakeScheduler
  · subst hwake
    rw [if_pos rfl] at hmodel
    cases d with
    | restarting | stuck => exact h.elim
    | waiting => cases hd
    | owing call =>
      cases call with
      | some f => cases hd
      | none =>
        obtain rfl := Option.some.inj hd
        rw [Duty.Matches, if_neg (by omega), (hadv.pending nofun).1]
        exact h
  rw [if_neg hwake, Nat.add_zero] at hmodel
  -- a thread which notifies the template thread has another duty
  have hnotify : i ≠ .notifyTemplateThread := by
    rintro rfl
    cases d with
    | restarting | stuck => exact h
    | waiting => cases hd
    | owing call => cases call <;> cases hd
  have hpending := (hadv.pending hnotify).1
  by_cases hlib : ∃ f, i = .lib f
  · obtain ⟨f, rfl⟩ := hlib
    obtain ⟨hcall, rfl⟩ | ⟨rfl, rfl⟩ := @call_eq_of_after d d' f semaphores st.mailbox hd hstuck
    · show d'.Matches (semaphores.call f) c st'
      rw [hcall]
      exact h.congr hmodel hpending
    · -- the call which was owed
      refine ⟨semaphores, h, ?_⟩
      rw [hpending, Semaphores.called, hduty.fits.2.2.2.2 f rfl]
      rfl
  · obtain ⟨rfl, -, -⟩ | ⟨f, -, hf, -⟩ := after_eq_some hd hwait hwake hnotify
    · have hsame : semaphores.after i = semaphores := by
        cases i with
        | lib f => exact absurd ⟨f, rfl⟩ hlib
        | _ => rfl
      rw [hsame]
      exact h.congr hmodel hpending
    · exact absurd ⟨f, hf⟩ hlib

/-- A thread which McMini does not execute changes no semaphore. -/
theorem OnDuty.advance_idle (h : OnDuty st .waiting) (hexecuting : st.executing = false)
    (hstep : st.advance = some st') :
    OnDuty st' .waiting ∧ st'.executing = false ∧ st'.pending = st.pending ∧
      ∃ i, st.code.head? = some i ∧ ∀ semaphores : Semaphores, semaphores.after i = semaphores := by
  obtain ⟨i, code, hadv⟩ := TargetThread.exists_advances hstep
  obtain ⟨j, d', hhead, hd, hduty'⟩ := h.advance hstep
  obtain rfl : i = j := by
    rw [hadv.code_eq] at hhead
    exact Option.some.inj hhead
  have hwait : i ≠ .waitForScheduler := by
    rintro rfl
    obtain ⟨hpermit, -⟩ := hadv.permit rfl
    have hunits := h.fits.2.1
    rw [if_neg (by rw [hexecuting]; exact Bool.false_ne_true)] at hunits
    omega
  have hwake : i ≠ .wakeScheduler := by
    rintro rfl
    cases hd
  have hnotify : i ≠ .notifyTemplateThread := by
    rintro rfl
    cases hd
  obtain ⟨rfl, -, -⟩ | ⟨f, hf, -, -⟩ := after_eq_some hd hwait hwake hnotify
  · refine ⟨hduty', hadv.executing.trans hexecuting, (hadv.pending hnotify).1, i, hhead, ?_⟩
    intro semaphores
    cases i with
    | lib f =>
      obtain ⟨hcall, -⟩ | ⟨hf, -⟩ :=
        @call_eq_of_after .waiting .waiting f semaphores st.mailbox hd nofun
      · exact hcall
      · cases hf
    | _ => rfl
  · cases hf

theorem Sound.described_update (h : Sound s) (hpending : st'.pending = (s.threads p).pending)
    (q : RunnerId) : Describes s.coordinator (Function.update s.threads p st' q).pending
      ((s.coordinator.currentProgramModel.nextSteps.lookup q).map (·.op)) := by
  by_cases hq : q = p
  · rw [hq, Function.update_self, hpending]
    exact h.described p
  · rw [Function.update_of_ne hq]
    exact h.described q

/-- A thread does something on its own. -/
theorem Sound.update (h : Sound s) (hpending : st'.pending = (s.threads p).pending)
    (hidle : s.scheduled ≠ some p →
      OnDuty st' .waiting ∧ st'.executing = false ∧ semaphores = s.semaphores)
    (hrunning : s.scheduled = some p →
      ∃ d, OnDuty st' d ∧ st'.executing = true ∧ d.Matches semaphores s.coordinator st') :
    Sound ⟨s.atExit, s.coordinator, Function.update s.threads p st', semaphores, s.scheduled⟩ := by
  refine ⟨h.mapped, h.described_update hpending, fun q hq => ?_, fun q hq => ?_, fun hnone => ?_⟩
  · show OnDuty (Function.update s.threads p st' q) _ ∧
      (Function.update s.threads p st' q).executing = false
    by_cases heq : q = p
    · rw [heq, Function.update_self]
      obtain ⟨hduty, hexecuting, -⟩ := hidle (heq ▸ hq)
      exact ⟨hduty, hexecuting⟩
    · rw [Function.update_of_ne heq]
      exact h.idle q hq
  · show ∃ d, OnDuty (Function.update s.threads p st' q) d ∧
      (Function.update s.threads p st' q).executing = true ∧
        d.Matches semaphores s.coordinator (Function.update s.threads p st' q)
    change s.scheduled = some q at hq
    by_cases heq : q = p
    · rw [heq, Function.update_self]
      exact hrunning (heq ▸ hq)
    · have hother : s.scheduled ≠ some p := by
        rw [hq]
        exact fun h => heq (Option.some.inj h)
      rw [Function.update_of_ne heq, (hidle hother).2.2]
      exact h.running q hq
  · change s.scheduled = none at hnone
    have hother : s.scheduled ≠ some p := by
      rw [hnone]
      exact nofun
    show Agree semaphores s.coordinator
    rw [(hidle hother).2.2]
    exact h.agree hnone

theorem Sound.advance (h : Sound s)
    (hstep : TargetThread.step (s.kind p) .advance (s.threads p) = some st') :
    Sound ⟨s.atExit, s.coordinator, Function.update s.threads p st', s.execute p,
      s.scheduled⟩ := by
  by_cases hscheduled : s.scheduled = some p
  · obtain ⟨d, hduty, hexecuting, hmatches⟩ := h.running p hscheduled
    obtain ⟨i, code, hadv⟩ := TargetThread.exists_advances hstep
    obtain ⟨j, d', hhead, hd, hduty'⟩ := hduty.advance hstep
    obtain rfl : i = j := by
      rw [hadv.code_eq] at hhead
      exact Option.some.inj hhead
    have hnotify : i ≠ .notifyTemplateThread := by
      rintro rfl
      cases d with
      | restarting | stuck => exact hmatches
      | waiting => cases hd
      | owing call => cases call <;> cases hd
    refine h.update (hadv.pending hnotify).1 (fun hnot => absurd hscheduled hnot) fun _ => ?_
    rw [execute_eq hhead]
    exact ⟨d', hduty', hadv.executing.trans hexecuting,
      hmatches.advance hduty hduty' hexecuting hd hadv hstep⟩
  · obtain ⟨hduty, hexecuting⟩ := h.idle p hscheduled
    obtain ⟨hduty', hexecuting', hpending, i, hhead, hsame⟩ := hduty.advance_idle hexecuting hstep
    refine h.update hpending (fun _ => ⟨hduty', hexecuting', ?_⟩)
      fun hsome => absurd hsome hscheduled
    rw [execute_eq hhead]
    exact hsame _

theorem Sound.goOn (h : Sound s) {act : TargetThread.Action}
    (hstep : TargetThread.step (s.kind p) act (s.threads p) = some st')
    (hact : (∃ c, act = .call c) ∨ act = .createFails ∨ act = .hangs) :
    Sound ⟨s.atExit, s.coordinator, Function.update s.threads p st', s.semaphores,
      s.scheduled⟩ := by
  by_cases hscheduled : s.scheduled = some p
  · obtain ⟨d, hduty, hexecuting, hmatches⟩ := h.running p hscheduled
    obtain ⟨hduty', hexecuting', -, hpending, hmodel⟩ := hduty.goOn hstep hact
    exact h.update hpending (fun hnot => absurd hscheduled hnot) fun _ =>
      ⟨d, hduty', hexecuting'.trans hexecuting, hmatches.congr hmodel hpending⟩
  · obtain ⟨hduty, hexecuting⟩ := h.idle p hscheduled
    obtain ⟨hduty', hexecuting', -, hpending, -⟩ := hduty.goOn hstep hact
    exact h.update hpending (fun _ => ⟨hduty', hexecuting'.trans hexecuting, rfl⟩)
      fun hsome => absurd hsome hscheduled

theorem Sound.executeRunner (h : Sound s) (hnone : s.scheduled = none)
    (hstep : TargetThread.step (s.kind p) .executeRunner (s.threads p) = some st') :
    Sound ⟨s.atExit, s.coordinator, Function.update s.threads p st', s.semaphores, some p⟩ := by
  have hidle : ∀ q, OnDuty (s.threads q) .waiting ∧ (s.threads q).executing = false :=
    fun q => h.idle q (by rw [hnone]; exact nofun)
  obtain ⟨hduty, hexecuting, hpending, hmodel⟩ := (hidle p).1.executeRunner hstep
  refine ⟨h.mapped, h.described_update hpending, fun q hq => ?_, fun q hq => ?_, nofun⟩
  · have hne : q ≠ p := fun heq => hq (congrArg some heq.symm)
    show OnDuty (Function.update s.threads p st' q) _ ∧
      (Function.update s.threads p st' q).executing = false
    rw [Function.update_of_ne hne]
    exact hidle q
  · obtain rfl := Option.some.inj hq
    show ∃ d, OnDuty (Function.update s.threads p st' p) d ∧
      (Function.update s.threads p st' p).executing = true ∧
        d.Matches s.semaphores s.coordinator (Function.update s.threads p st' p)
    rw [Function.update_self]
    refine ⟨.waiting, hduty, hexecuting, ?_⟩
    rw [Duty.Matches, if_pos hmodel]
    exact h.agree hnone

theorem Describes.congr {o : Option Operation} (h : Describes c m o)
    (hmapping : c'.systemAddressMapping = c.systemAddressMapping) : Describes c' m o := by
  cases h with
  | semInit hi => exact .semInit (hmapping ▸ hi)
  | semPost hi => exact .semPost (hmapping ▸ hi)
  | semWait hi => exact .semWait (hmapping ▸ hi)
  | other hm ho => exact .other hm ho

/-- A callback changes none of the pending operations, and what it adds is the start of a runner. -/
theorem describes_adds (h : Describes c m
      ((c.currentProgramModel.nextSteps.lookup p).map (·.op))) (hkeeps : Keeps c c₁)
    (hm : Mapped c) (hadds : Adds (c.afterProcess q) c₁) :
    Describes c₁ m ((c₁.currentProgramModel.nextSteps.lookup p).map (·.op)) := by
  have hprocess := hm.afterProcess q
  rcases hold : c.currentProgramModel.nextSteps.lookup p with _ | t
  · rw [hold] at h
    have hcall : callOf m = none := by
      cases h with
      | other hm ho => exact hm
    refine .other hcall fun op hop => ?_
    obtain ⟨t, ht, rfl⟩ := Option.map_eq_some_iff.mp hop
    obtain hsame | ⟨-, hstart⟩ := pending_of_adds hprocess hadds ht
    · cases hold.symm.trans hsame
    · rw [hstart]
      rfl
  · have hnew := pending_adds hprocess hadds hold
    rw [hold] at h
    rw [hnew]
    exact h.keeps hkeeps

/-- The condition looks at nothing which the call changes. -/
theorem harmless_called {before : Semaphores} (h : Agree before c) (hkeeps : Keeps c c₁)
    (hm : Mapped c) :
    harmless before c₁ m = harmless (before.called m) c m := by
  rcases m with _ | contents
  · rfl
  · cases contents with
    | semPost a =>
      refine Bool.eq_iff_iff.mpr ?_
      rw [harmless_semPost_iff, harmless_semPost_iff]
      refine forall_congr' fun hinit => ?_
      obtain ⟨x, hx, -⟩ := h a hinit
      rw [countAt_eq hx, countAt_eq (hkeeps.objectAt hm hx)]
    | _ => rfl

/-- **A completed execution** of a runner. -/
theorem Sound.receive (h : Sound s)
    (hlength : s.coordinator.getStateSequence.visibleObjects.length ≤ objidInvalid)
    (hstep : step ⟨p, .receive⟩ s = some s') :
    s'.scheduled = none ∧
      (Agree s'.semaphores s'.coordinator ↔
        harmless s.semaphores s.coordinator (s.threads p).pending = true) ∧
      (Agree s'.semaphores s'.coordinator → Sound s') := by
  obtain ⟨st, hthread, hstep⟩ := Option.bind_eq_some_iff.mp hstep
  obtain ⟨contents, hcontents, hstep⟩ := Option.bind_eq_some_iff.mp hstep
  obtain ⟨c', hexecute, hstep⟩ := Option.bind_eq_some_iff.mp hstep
  obtain rfl := Option.some.inj hstep
  -- only the thread which McMini executes can be received from
  have hscheduled : s.scheduled = some p := by
    by_contra hnot
    obtain ⟨⟨hexecuting, -⟩, -⟩ := Option.ite_none_right_eq_some.mp hthread
    have hidle := (h.idle p hnot).2
    rw [hexecuting] at hidle
    cases hidle
  obtain ⟨d, hduty, hexecuting, hmatches⟩ := h.running p hscheduled
  obtain ⟨rfl, hduty', hreport, hdone, hpending⟩ := hduty.receive hthread
  rw [Duty.Matches, if_neg hreport.ne'] at hmatches
  -- the call of the operation has been made, which was described in the mailbox
  obtain ⟨before, hbefore, hcalled⟩ := hmatches
  obtain ⟨c₁, next, t, hkeeps, hmapped₁, hadds, hcallback, hnext, hmodel, hmapped', hmapping,
    hpendings⟩ := h.mapped.executeStep hlength hexecute
  have hdescribes := describes_adds (h.described p) hkeeps h.mapped hadds
  rw [hnext] at hdescribes
  refine ⟨rfl, ?_, fun hagree => ⟨hmapped', fun q => ?_, fun q _ => ?_, nofun, fun _ => hagree⟩⟩
  · show Agree s.semaphores c' ↔ _
    -- the model makes the same change, unless the operation is one on which they differ
    rw [hcalled, agree_iff_harmless hmapped₁ hdescribes hmapping hmodel
      (hbefore.keeps hkeeps h.mapped)]
    rw [harmless_called hbefore hkeeps h.mapped]
  · show Describes c' (Function.update s.threads p st q).pending
      ((c'.currentProgramModel.nextSteps.lookup q).map (·.op))
    rw [hpendings, lookup_insert]
    by_cases hq : q = p
    · rw [hq, Function.update_self, if_pos rfl, hpending, hcontents]
      exact (describes_callback (h.mapped.afterProcess p) hlength hcallback).congr hmapping
    · rw [Function.update_of_ne hq, if_neg (Ne.symm hq)]
      exact (describes_adds (h.described q) hkeeps h.mapped hadds).congr hmapping
  · show OnDuty (Function.update s.threads p st q) .waiting ∧
      (Function.update s.threads p st q).executing = false
    by_cases hq : q = p
    · rw [hq, Function.update_self]
      exact ⟨hduty', hdone⟩
    · rw [Function.update_of_ne hq]
      refine h.idle q ?_
      rw [hscheduled]
      exact fun h => hq (Option.some.inj h).symm

/-- Every other step is sound. -/
theorem Sound.preserved (h : Sound s) (hstep : step a s = some s') (ha : a.act ≠ .receive) :
    Sound s' := by
  obtain ⟨p, act⟩ := a
  cases act with
  | receive => exact absurd rfl ha
  | changeMode => cases hstep
  | executeRunner =>
    obtain ⟨hnone, hstep⟩ := Option.ite_none_right_eq_some.mp hstep
    obtain ⟨st, hthread, rfl⟩ := Option.map_eq_some_iff.mp hstep
    exact h.executeRunner hnone hthread
  | advance =>
    obtain ⟨st, hthread, rfl⟩ := Option.map_eq_some_iff.mp hstep
    exact h.advance hthread
  | call c =>
    obtain ⟨st, hthread, rfl⟩ := Option.map_eq_some_iff.mp hstep
    exact h.goOn hthread (.inl ⟨c, rfl⟩)
  | createFails =>
    obtain ⟨st, hthread, rfl⟩ := Option.map_eq_some_iff.mp hstep
    exact h.goOn hthread (.inr (.inl rfl))
  | hangs =>
    obtain ⟨st, hthread, rfl⟩ := Option.map_eq_some_iff.mp hstep
    exact h.goOn hthread (.inr (.inr rfl))

/-! ### Runs -/

/-- A branch which begins: the model has what is described in the mailboxes, and the values of the
semaphores. -/
structure Starts (s : State) : Prop where
  mapped : Mapped s.coordinator
  begins : ∀ p, Begins (s.kind p) (s.threads p)
  described : ∀ p, Describes s.coordinator (s.threads p).pending
    ((s.coordinator.currentProgramModel.nextSteps.lookup p).map (·.op))
  agree : Agree s.semaphores s.coordinator
  scheduled : s.scheduled = none

theorem Starts.sound (h : Starts s) : Sound s where
  mapped := h.mapped
  described := h.described
  idle := fun p _ => onDuty_of_begins (h.begins p)
  running := fun _ hp => nomatch h.scheduled.symm.trans hp
  agree := fun _ => h.agree

/-- The operation which has been executed is harmless. -/
def HarmlessStep (s : State) (a : Action) : Prop :=
  a.act = .receive → harmless s.semaphores s.coordinator (s.threads a.thread).pending = true

instance (s : State) (a : Action) : Decidable (HarmlessStep s a) :=
  inferInstanceAs (Decidable (a.act = .receive →
    harmless s.semaphores s.coordinator (s.threads a.thread).pending = true))

/-- The branch with its objects, of which none is taken away. -/
theorem objects_step (h : s.coordinator.getStateSequence.Settled) (hstep : step a s = some s') :
    s'.coordinator.getStateSequence.Settled ∧
      s.coordinator.getStateSequence.visibleObjects.length ≤
        s'.coordinator.getStateSequence.visibleObjects.length := by
  obtain ⟨p, act⟩ := a
  cases act with
  | receive =>
    obtain ⟨st, -, hstep⟩ := Option.bind_eq_some_iff.mp hstep
    obtain ⟨contents, -, hstep⟩ := Option.bind_eq_some_iff.mp hstep
    obtain ⟨c', hexecute, hstep⟩ := Option.bind_eq_some_iff.mp hstep
    obtain rfl := Option.some.inj hstep
    exact objects_executeStep h hexecute
  | changeMode => cases hstep
  | executeRunner =>
    obtain ⟨-, hstep⟩ := Option.ite_none_right_eq_some.mp hstep
    obtain ⟨st, -, rfl⟩ := Option.map_eq_some_iff.mp hstep
    exact ⟨h, le_rfl⟩
  | advance | call | createFails | hangs =>
    obtain ⟨st, -, rfl⟩ := Option.map_eq_some_iff.mp hstep
    exact ⟨h, le_rfl⟩

theorem objects_run {acts : List Action} (h : s.coordinator.getStateSequence.Settled)
    (hrun : runFrom step s acts = some s') :
    s.coordinator.getStateSequence.visibleObjects.length ≤
      s'.coordinator.getStateSequence.visibleObjects.length := by
  induction acts generalizing s with
  | nil =>
    obtain rfl := Option.some.inj hrun
    exact le_rfl
  | cons a acts ih =>
    obtain ⟨s₁, hstep, hrest⟩ := runFrom_cons_eq_some.mp hrun
    obtain ⟨hsettled, hle⟩ := objects_step h hstep
    exact hle.trans (ih hsettled hrest)

/-- One step: the branch stays sound exactly if the step is harmless. -/
theorem Sound.step_iff (h : Sound s)
    (hlength : s.coordinator.getStateSequence.visibleObjects.length ≤ objidInvalid)
    (hstep : step a s = some s') :
    (Sound s' ↔ HarmlessStep s a) ∧
      ((s'.scheduled = none → Agree s'.semaphores s'.coordinator) → Sound s') := by
  by_cases ha : a.act = .receive
  · obtain ⟨p, act⟩ := a
    obtain rfl : act = .receive := ha
    obtain ⟨hnone, hagree, hsound⟩ := h.receive hlength hstep
    refine ⟨⟨fun h _ => hagree.mp (h.agree hnone), fun hharmless => ?_⟩, fun h => hsound (h hnone)⟩
    exact hsound (hagree.mpr (hharmless rfl))
  · have hsound := h.preserved hstep ha
    exact ⟨⟨fun _ h => absurd h ha, fun _ => hsound⟩, fun _ => hsound⟩

/-- A run whose states agree, from a sound state, is one of harmless steps. -/
theorem Sound.agree_iff {acts : List Action} (h : Sound s) (hrun : runFrom step s acts = some s')
    (hlength : s'.coordinator.getStateSequence.visibleObjects.length ≤ objidInvalid) :
    (∀ pre u, pre <+: acts → runFrom step s pre = some u → u.scheduled = none →
      Agree u.semaphores u.coordinator) ↔ HoldsAlong step HarmlessStep s acts := by
  induction acts generalizing s with
  | nil =>
    refine ⟨fun _ => trivial, fun _ pre u hpre hu => ?_⟩
    obtain rfl := List.prefix_nil.mp hpre
    obtain rfl := Option.some.inj hu
    exact h.agree
  | cons a acts ih =>
    have hbefore := (objects_run h.mapped.settled hrun).trans hlength
    obtain ⟨s₁, hstep, hrest⟩ := runFrom_cons_eq_some.mp hrun
    obtain ⟨hiff, hsound⟩ := h.step_iff hbefore hstep
    constructor
    · intro hagree
      have hsound₁ : Sound s₁ := hsound fun hnone => hagree [a] s₁
        (List.cons_prefix_cons.mpr ⟨rfl, List.nil_prefix⟩)
        (runFrom_cons_eq_some.mpr ⟨s₁, hstep, rfl⟩) hnone
      refine ⟨hiff.mp hsound₁, fun s₂ hs₂ => ?_⟩
      obtain rfl := Option.some.inj (hstep.symm.trans hs₂)
      refine (ih hsound₁ hrest).mp fun pre u hpre hu hnone => ?_
      exact hagree (a :: pre) u (List.cons_prefix_cons.mpr ⟨rfl, hpre⟩)
        (runFrom_cons_eq_some.mpr ⟨s₁, hstep, hu⟩) hnone
    · rintro ⟨hharmless, hall⟩ pre u hpre hu hnone
      have hsound₁ : Sound s₁ := hiff.mpr hharmless
      cases pre with
      | nil =>
        obtain rfl := Option.some.inj hu
        exact h.agree hnone
      | cons b pre =>
        obtain ⟨rfl, hrestpre⟩ := List.cons_prefix_cons.mp hpre
        obtain ⟨s₂, hs₂, hu⟩ := runFrom_cons_eq_some.mp hu
        obtain rfl := Option.some.inj (hstep.symm.trans hs₂)
        exact (ih hsound₁ hrest).mpr (hall s₁ hstep) pre u hrestpre hu hnone

end Branch

/-- **The values of the semaphores.** Whenever McMini executes no runner, the semaphores which
`mc_sem_init` has initialized have the values of their models, exactly if no such semaphore has
been waited for, and none has been posted whose count was the largest number of 32 bits. -/
theorem semaphores_agree_iff {s₀ s : State} {acts : List Action} (hstart : Starts s₀)
    (hrun : runFrom step s₀ acts = some s)
    (hlength : s.coordinator.getStateSequence.visibleObjects.length ≤ objidInvalid) :
    (∀ pre s', pre <+: acts → runFrom step s₀ pre = some s' → s'.scheduled = none →
      Agree s'.semaphores s'.coordinator) ↔ HoldsAlong step HarmlessStep s₀ acts :=
  hstart.sound.agree_iff hrun hlength

/-- A branch at `main`. -/
private def atMain : State where
  atExit := true
  coordinator := .atMain
  threads := fun _ => TargetThread.start .targetBranch
  semaphores := ⟨fun _ => 0, fun _ => false⟩

private theorem starts_atMain : Starts atMain := by
  refine ⟨⟨StateSequence.settled_ofDetachedState _, ?_, ?_, fun p t ht => ?_⟩, fun p => .start rfl,
    fun p => .other rfl fun op hop => ?_, nofun, rfl⟩
  · intro a i hi
    cases (Finmap.lookup_empty a).symm.trans hi
  · intro a b i hi
    cases (Finmap.lookup_empty a).symm.trans hi
  · obtain ⟨rfl, -⟩ := pending_atMain ht
    exact Nat.zero_lt_one
  · obtain ⟨t, ht, rfl⟩ := Option.map_eq_some_iff.mp hop
    obtain ⟨-, rfl⟩ := pending_atMain ht
    rfl

private def main (act : TargetThread.Action) : Action := ⟨ridMainThread, act⟩

/-- The main thread starts, and initializes a semaphore with the count one. -/
private def initializing : List Action :=
  [main .advance, main .executeRunner, main .advance, main (.call (.semInit 64 1)), main .advance,
    main .advance, main .receive]

/-- The main thread is executed, and calls a wrapper next. -/
private def executing (c : Call) : List Action :=
  [main .advance, main .executeRunner, main .advance, main .advance, main (.call c), main .advance,
    main .advance, main .receive]

/-- The semaphore is posted. -/
private def postingAtMain : List Action :=
  initializing ++ executing (.semPost 64) ++ executing (.semPost 64)

theorem semaphores_agree_posting : ∃ s, runFrom step atMain postingAtMain = some s ∧
    s.semaphores.value 64 = 2 ∧ Agree s.semaphores s.coordinator := by
  obtain ⟨s, hs⟩ := Option.isSome_iff_exists.mp (show
    (runFrom step atMain postingAtMain).isSome = true by rfl)
  have hfinal : (runFrom step atMain postingAtMain).map (fun s => (s.scheduled,
      s.semaphores.value 64, s.coordinator.getStateSequence.visibleObjects.length)) =
      some (none, 2, 2) := by rfl
  rw [hs] at hfinal
  have hvalues := Option.some.inj hfinal
  simp only [Prod.mk.injEq] at hvalues
  obtain ⟨hnone, hvalue, hlength⟩ := hvalues
  refine ⟨s, hs, hvalue, ?_⟩
  exact (semaphores_agree_iff starts_atMain hs (hlength ▸ by decide)).mpr (by decide)
    postingAtMain s List.prefix_rfl hs hnone

/-- The semaphore is waited for. -/
private def waitingAtMain : List Action :=
  initializing ++ executing (.semWait 64) ++ executing (.semPost 64)

/-- The wait has posted the semaphore, whose model has the count zero. -/
theorem not_agree_of_waiting : ¬ ∀ (s₀ s : State) (acts : List Action), Starts s₀ →
    runFrom step s₀ acts = some s →
    s.coordinator.getStateSequence.visibleObjects.length ≤ objidInvalid → s.scheduled = none →
    Agree s.semaphores s.coordinator := by
  intro h
  obtain ⟨s, hs⟩ := Option.isSome_iff_exists.mp (show
    (runFrom step atMain waitingAtMain).isSome = true by rfl)
  have hfinal : (runFrom step atMain waitingAtMain).map (fun s => (s.scheduled,
      s.semaphores.value 64, s.semaphores.initialized 64, s.coordinator.objectAt 64,
      s.coordinator.getStateSequence.visibleObjects.length)) =
      some (none, 2, true, some (.semaphore (.ofCount 0)), 2) := by rfl
  rw [hs] at hfinal
  have hvalues := Option.some.inj hfinal
  simp only [Prod.mk.injEq] at hvalues
  obtain ⟨hnone, hvalue, hinit, hobject, hlength⟩ := hvalues
  obtain ⟨x, hx, hcount⟩ := h atMain s waitingAtMain starts_atMain hs
    (hlength ▸ by decide) hnone 64 hinit
  rw [hobject, Option.some.injEq, VisibleObjectState.semaphore.injEq] at hx
  rw [hvalue, ← hx] at hcount
  exact absurd hcount (by decide)

end McMini.TargetBranch
