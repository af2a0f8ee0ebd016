import McMini.Model.Unchecked
import McMini.Properties.Addresses
import McMini.Properties.MailboxPayloads
import McMini.RealWorld.ReusedAddresses

/-!
# The classes of the objects at the addresses

Callbacks find the objects of the model by their addresses, whatever the classes of these objects.

* **Callbacks.** A callback which answers has the objects which the operation is called with, and
  answers with the operation on them (`describes_callback`). An object which it adds has the class
  of the callback (`typeAt_callback`).
* **Executing.** A transition which replaces a state without reading the old one may change the
  class of its object, and no other transition does (`executes_follow`). At the addresses this
  means that the class there is the one which the operation sets up (`typeAt_executes`).

Executing a transition here is executing it where states are recorded without a look at the objects
(`follow_eq_exists_iff_unchecked`).
-/

namespace McMini.ReusedAddresses

open Coordinator Foundation

/-! ### The types of the objects -/

/-- The class of the object which the model has for the address. -/
def typeAt (c : Coordinator) (a : Addr) : Option ObjectType :=
  (c.objectAt a).map VisibleObjectState.objectType

/-- The class which is given for the address, or for the object. -/
def classAt (x : Option (ℕ × ObjectType)) (a : ℕ) : Option ObjectType :=
  x.bind fun x => if x.1 = a then some x.2 else none

theorem classAt_some {b a : ℕ} {ty : ObjectType} :
    classAt (some (b, ty)) a = if b = a then some ty else none := rfl

/-- The object whose state the operation sets up, without regard to the old one. -/
def setsUp (s : McMini.State) : Operation → Option (ObjId × ObjectType)
  | .mutexInit m => some (m, .mutex)
  | .conditionVariableInit c => some (c, .conditionVariable)
  | .semInit i _ => some (i, .semaphore)
  | .threadCreate target => (s.objidForRunner target).map (·, .thread)
  | _ => none

/-- The operation is the reported one, on the objects which the model has for the addresses. -/
structure Describes (c : Coordinator) (contents : MailboxContents) (op : Operation) : Prop where
  operands : op.operands = contents.operands.map fun x => (c.getModelOfObject x.1, x.2)
  setsUp : setsUp c.getStateSequence.toState op =
    contents.setsUp.map fun x => (c.getModelOfObject x.1, x.2)
  created : ∀ r, op = .threadCreate r →
    (c.getStateSequence.toState.objidForRunner r).isSome = true
  known : ∀ a, contents.concerns a = true → c.contains a = true

section Types

variable {c c' c₁ : Coordinator} {p : RunnerId} {contents : MailboxContents} {a b : Addr}
  {t next : Transition} {op : Operation} {o : VisibleObjectState} {i : ObjId} {ty : ObjectType}

theorem typeAt_eq_none_iff (h : Mapped c)
    (hlength : c.getStateSequence.visibleObjects.length ≤ objidInvalid) :
    typeAt c a = none ↔ c.contains a = false := by
  rw [typeAt, Option.map_eq_none_iff, Coordinator.objectAt, ← Bool.not_eq_true, h.contains_iff hlength]
  rcases hlookup : c.systemAddressMapping.lookup a with _ | i
  · simp
  · have hlt := h.lookup_lt a i hlookup
    rw [Option.bind_some, h.settled.current.objectState, List.getElem?_eq_getElem hlt]
    simp

theorem Mapped.exists_object (h : Mapped c) (hi : c.systemAddressMapping.lookup a = some i) :
    ∃ o, c.getStateSequence.toState.objectState i = some o := by
  rw [h.settled.current.objectState, List.getElem?_eq_getElem (h.lookup_lt a i hi)]
  exact ⟨_, rfl⟩

theorem objectState_concat {s s' : StateSequence} (h : s'.Settled)
    (hobjects : s'.visibleObjects = s.visibleObjects ++ [.ofState o]) :
    s'.toState.objectState s.visibleObjects.length = some o := by
  rw [h.current.objectState, hobjects, List.getElem?_concat_length]
  rfl

/-- The object which has been added is found at its address, and the others where they were. -/
theorem typeAt_insert (h : Mapped c) (hkeeps : Keeps c c₁)
    (hunknown : c.systemAddressMapping.lookup b = none)
    (hmapping : c₁.systemAddressMapping =
      c.insertAddress b c.getStateSequence.visibleObjects.length)
    (ho : c₁.getStateSequence.toState.objectState c.getStateSequence.visibleObjects.length = some o) :
    typeAt c₁ a = if b = a then some o.objectType else typeAt c a := by
  rw [typeAt, typeAt, Coordinator.objectAt, Coordinator.objectAt, hmapping,
    insertAddress_of_unknown hunknown, lookup_insert]
  split_ifs
  · rw [Option.bind_some, ho, Option.map_some]
  · rcases hlookup : c.systemAddressMapping.lookup a with _ | i
    · rfl
    · obtain ⟨o', ho'⟩ := Mapped.exists_object h hlookup
      rw [Option.bind_some, Option.bind_some, ho', hkeeps.objectState h.settled ho']

theorem observed_eq : contents.observed = contents.adds.map Prod.fst := by
  cases contents <;> rfl

/-- A callback which initializes what is initialized statically. -/
theorem ensureInitialized_bind_run {x : CoordinatorM Transition} {isStaticInitializer : Bool}
    {message : String} (hnew : c.contains b = false) (hx : ∀ d, (x.run d).2 = d)
    (hrun : (ensureInitialized b isStaticInitializer o message >>= fun _ => x).run c =
      (.ok t, c₁)) : c₁ = c.observe b o := by
  rw [run_bind, ensureInitialized_run, hnew, if_neg Bool.false_ne_true] at hrun
  cases isStaticInitializer with
  | false => cases (Prod.mk.inj hrun).1
  | true => exact (congrArg Prod.snd hrun).symm.trans (hx _)

/-- What a callback adds at an address which is not known. -/
theorem callback_new (hs : c.getStateSequence.Settled) (hadds : contents.adds = some (b, ty))
    (hnew : c.contains b = false)
    (hrun : (callback p contents).run c = (.ok t, c₁)) :
    (∃ o, o.objectType = ty ∧ c₁ = c.observe b o) ∨ ty = .thread ∧
      c₁ = ((observeRunner b ⟨.embryo⟩ fun id => ⟨id, .threadStart⟩).run c).2 := by
  have hensure : ∀ {o : VisibleObjectState} {g : ObjId → Transition},
      (ensureObserved b o >>= fun _ => modelOf b >>= fun i => pure (g i)).run c = (.ok t, c₁) →
      c₁ = c.observe b o := by
    intro o g hrun
    rw [run_bind, ensureObserved_run, hnew, if_neg Bool.false_ne_true] at hrun
    exact (congrArg Prod.snd hrun).symm
  cases contents with
  | mutexInit a | condInit a | semInit a n =>
    cases hadds
    exact .inl ⟨_, rfl, hensure hrun⟩
  | mutexLock a isStatic | condSignal a isStatic | condBroadcast a isStatic =>
    cases hadds
    exact .inl ⟨_, rfl, ensureInitialized_bind_run hnew (fun _ => rfl) hrun⟩
  | condEnqueue a m isStatic =>
    cases hadds
    exact .inl ⟨_, rfl,
      ensureInitialized_bind_run hnew (fun _ => adds_requireObserved fun _ => rfl) hrun⟩
  | threadCreate a =>
    cases hadds
    have hunknown : c.containsRunner b = false := by
      have hobject : c.getModelOfObject b = objidInvalid := by
        rwa [Coordinator.contains, bne_eq_false_iff_eq] at hnew
      simp [Coordinator.containsRunner, Coordinator.getModelOfRunner, hobject]
    obtain ⟨s', -, hobserve⟩ :=
      observeRunner_run hs hnew ⟨.embryo⟩ fun id => ⟨id, .threadStart⟩
    rw [callback, threadCreateCallback, run_bind, run_get] at hrun
    dsimp only at hrun
    rw [hunknown, Bool.not_false, if_pos rfl, run_bind, hobserve] at hrun
    rw [hobserve]
    exact .inr ⟨rfl, (congrArg Prod.snd hrun).symm⟩
  | _ => cases hadds

/-- What a callback adds. -/
theorem typeAt_callback (h : Mapped c)
    (hlength : c₁.getStateSequence.visibleObjects.length ≤ objidInvalid)
    (hrun : (callback p contents).run c = (.ok t, c₁)) :
    typeAt c₁ a = (typeAt c a).or (classAt contents.adds a) := by
  have hadds := callback_adds p contents c
  rw [hrun] at hadds
  have hkeeps : Keeps c c₁ := keeps_of_adds h.settled hadds
  have hbefore := hkeeps.objects.length_le.trans hlength
  by_cases hnew : ∃ b ty, contents.adds = some (b, ty) ∧ c.contains b = false
  · obtain ⟨b, ty, hcontents, hnew⟩ := hnew
    have hnone := (typeAt_eq_none_iff h hbefore).mpr hnew
    have hunknown := h.lookup_eq_none hbefore hnew
    have hinsert : typeAt c₁ a = if b = a then some ty else typeAt c a := by
      -- either an object is observed, or a runner, whose object begins as an embryo
      obtain ⟨o, rfl, rfl⟩ | ⟨rfl, rfl⟩ := callback_new h.settled hcontents hnew hrun
      · exact typeAt_insert h hkeeps hunknown rfl (objectState_concat hkeeps.settled rfl)
      · obtain ⟨s', hadds, hrun⟩ :=
          observeRunner_run h.settled hnew ⟨.embryo⟩ fun id => ⟨id, .threadStart⟩
        rw [hrun] at hkeeps ⊢
        exact typeAt_insert h hkeeps hunknown rfl (objectState_concat hkeeps.settled hadds.objects)
    rw [hinsert, hcontents, classAt_some]
    split_ifs with heq
    · rw [← heq, hnone, Option.none_or]
    · rw [Option.or_none]
  -- the object is known already, so that the address keeps it with its class
  · have hunchanged : c₁ = c := by
      have hsame := @callback_unchanged p contents c fun a ha => ?_
      · rwa [hrun] at hsame
      rw [observed_eq] at ha
      obtain ⟨⟨b, ty⟩, hcontents, rfl⟩ := Option.map_eq_some_iff.mp ha
      by_contra hknown
      exact hnew ⟨b, ty, hcontents, Bool.eq_false_of_not_eq_true hknown⟩
    rw [hunchanged]
    rcases hcontents : contents.adds with _ | ⟨b, ty⟩
    · exact Option.or_none.symm
    · rw [classAt_some]
      split_ifs with heq
      · have hknown : typeAt c a ≠ none := fun hnone =>
          hnew ⟨b, ty, hcontents, (typeAt_eq_none_iff h hbefore).mp (heq ▸ hnone)⟩
        obtain ⟨ty', hty'⟩ := Option.ne_none_iff_exists'.mp hknown
        rw [hty', Option.some_or]
      · exact Option.or_none.symm

/-- A callback which requires an object goes on only if it is known. -/
theorem requireObserved_bind_run {x : CoordinatorM Transition} {message : String}
    (hrun : (requireObserved b message >>= fun _ => x).run c = (.ok t, c₁)) :
    c.contains b = true ∧ x.run c = (.ok t, c₁) := by
  rw [run_bind, requireObserved_run] at hrun
  by_cases hknown : c.contains b = true
  · rw [if_pos hknown] at hrun
    exact ⟨hknown, hrun⟩
  · rw [if_neg hknown] at hrun
    cases (Prod.mk.inj hrun).1

theorem concerns_iff : contents.concerns a = true ↔
    (∃ ty, (a, ty) ∈ contents.operands) ∨ contents = .threadCreate a := by
  rw [MailboxContents.concerns, Bool.or_eq_true, List.any_eq_true, decide_eq_true_iff]
  refine or_congr_left ⟨?_, fun ⟨ty, hmem⟩ => ⟨_, hmem, decide_eq_true rfl⟩⟩
  rintro ⟨⟨b, ty⟩, hmem, heq⟩
  exact ⟨ty, of_decide_eq_true heq ▸ hmem⟩

theorem concerns_of_setsUp {x : Addr × ObjectType} (hx : contents.setsUp = some x) :
    contents.concerns x.1 = true := by
  refine concerns_iff.mpr ?_
  cases contents with
  | threadCreate a =>
    obtain rfl := Option.some.inj hx
    exact .inr rfl
  | mutexInit a | condInit a | semInit a n =>
    obtain rfl := Option.some.inj hx
    exact .inl ⟨_, List.mem_singleton.mpr rfl⟩
  | _ => cases hx

/-- When a callback answers, the model knows the objects which the operation is called with. -/
theorem known_of_callback (hadded : ∀ a ty, contents.adds = some (a, ty) → c₁.contains a = true)
    (hrun : (callback p contents).run c = (.ok t, c₁)) :
    ∀ a, contents.concerns a = true → c₁.contains a = true := by
  have hread : ∀ {b : Addr} {x : CoordinatorM Transition} {message : String} {d : Coordinator},
      (∀ d, (x.run d).2 = d) → (requireObserved b message >>= fun _ => x).run d = (.ok t, c₁) →
      c₁.contains b = true := by
    intro b x message d hx hrun
    obtain ⟨hknown, hrun⟩ := requireObserved_bind_run hrun
    have hsame : d = c₁ := (hx d).symm.trans (congrArg Prod.snd hrun)
    rwa [← hsame]
  intro a ha
  obtain ⟨ty, hmem⟩ | rfl := concerns_iff.mp ha
  · cases contents with
    | mutexInit b | mutexLock b isStatic | condInit b | condSignal b isStatic
    | condBroadcast b isStatic | semInit b n =>
      obtain ⟨rfl, rfl⟩ := Prod.mk.inj (List.mem_singleton.mp hmem)
      exact hadded _ _ rfl
    | mutexUnlock b | condDestroy b | semPost b | semWait b =>
      obtain ⟨rfl, rfl⟩ := Prod.mk.inj (List.mem_singleton.mp hmem)
      exact hread (fun _ => rfl) hrun
    | semDestroy b => cases (Prod.mk.inj (requireObserved_bind_run hrun).2).1
    | condEnqueue b m isStatic =>
      obtain heq | hmem := List.mem_cons.mp hmem
      · obtain ⟨rfl, rfl⟩ := Prod.mk.inj heq
        exact hadded _ _ rfl
      · obtain ⟨rfl, rfl⟩ := Prod.mk.inj (List.mem_singleton.mp hmem)
        rw [callback, condWaitingThreadEnqueueCallback, run_bind] at hrun
        rcases hensure : (ensureCondInitialized b isStatic
          "Attempting to wait on an uninitialized condition variable").run c with ⟨_ | _, d⟩
        · rw [hensure] at hrun
          cases (Prod.mk.inj hrun).1
        · rw [hensure] at hrun
          exact hread (fun _ => rfl) hrun
    | condWait b m =>
      obtain ⟨hknown, hrun⟩ := requireObserved_bind_run hrun
      obtain heq | hmem := List.mem_cons.mp hmem
      · obtain ⟨rfl, rfl⟩ := Prod.mk.inj heq
        obtain ⟨-, hrun⟩ := requireObserved_bind_run hrun
        have hsame : c = c₁ := congrArg Prod.snd hrun
        rwa [← hsame]
      · obtain ⟨rfl, rfl⟩ := Prod.mk.inj (List.mem_singleton.mp hmem)
        exact hread (fun _ => rfl) hrun
    | threadCreate | threadExit | threadJoin | processExit | processAbort | unregistered =>
      cases hmem
  · exact hadded a _ rfl

/-- The runner which a creation names has the object at the handle. -/
theorem runner_of_threadCreate (h : Mapped c)
    (hlength : c₁.getStateSequence.visibleObjects.length ≤ objidInvalid)
    (hrun : (threadCreateCallback p a).run c = (.ok t, c₁)) :
    ∃ r, t.op = .threadCreate r ∧
      c₁.getStateSequence.runnerToObjMap.lookup r = some (c₁.getModelOfObject a) := by
  by_cases hrunner : c.getModelOfRunner a = ridInvalid
  · have hcontainsRunner : c.containsRunner a = false := by
      rw [Coordinator.containsRunner, hrunner, bne_self_eq_false]
    -- a handle which has an object, but no runner, makes the callback throw
    have hnew : c.contains a = false := by
      by_contra hknown
      rw [threadCreateCallback, run_bind, run_get] at hrun
      dsimp only at hrun
      rw [hcontainsRunner, Bool.not_false, if_pos rfl, run_bind,
        observeRunner_run_of_contains (Bool.eq_true_of_not_eq_false hknown)] at hrun
      cases (Prod.mk.inj hrun).1
    have hadded : c₁.getStateSequence.visibleObjects.length =
        c.getStateSequence.visibleObjects.length + 1 := by
      have hcallback : (callback p (.threadCreate a)).run c = (.ok t, c₁) := hrun
      obtain ⟨o, -, rfl⟩ | ⟨-, rfl⟩ := callback_new h.settled rfl hnew hcallback
      · exact List.length_append
      · obtain ⟨s', hadds, hobserve⟩ :=
          observeRunner_run h.settled hnew ⟨.embryo⟩ fun id => ⟨id, .threadStart⟩
        rw [hobserve]
        exact (congrArg List.length hadds.objects).trans List.length_append
    obtain ⟨c', hrun', hadds, hmapping⟩ := threadCreateCallback_unknown (p := p) h.settled
      (h.lookup_eq_none (by omega) hnew) (by omega)
    rw [hrun'] at hrun
    obtain ⟨ht, rfl⟩ := Prod.mk.inj hrun
    refine ⟨_, by rw [← Except.ok.inj ht], ?_⟩
    rw [Coordinator.getModelOfObject, hmapping, lookup_insert, if_pos rfl, Option.getD_some]
    exact hadds.lookup_self
  -- the handle has a runner already
  · rw [threadCreateCallback_known hrunner] at hrun
    obtain ⟨ht, rfl⟩ := Prod.mk.inj hrun
    refine ⟨c.getModelOfRunner a, by rw [← Except.ok.inj ht], ?_⟩
    rw [Coordinator.getModelOfRunner] at hrunner ⊢
    split_ifs at hrunner ⊢ with hobject
    · rcases hr : c.getStateSequence.getRunnerIdForObjAt c.getStateSequence.representative
        (c.getModelOfObject a) with _ | r
      · rw [hr] at hrunner
        exact absurd rfl hrunner
      · rw [StateSequence.getRunnerIdForObjAt] at hr
        split_ifs at hr
        exact InjectiveFunction.lookup_eq_some_iff.mpr hr
    · exact absurd rfl hrunner

/-- A callback answers with the operation which is reported. -/
theorem describes_callback (h : Mapped c)
    (hlength : c₁.getStateSequence.visibleObjects.length ≤ objidInvalid)
    (hrun : (callback p contents).run c = (.ok t, c₁)) : Describes c₁ contents t.op := by
  have hadds := callback_adds p contents c
  rw [hrun] at hadds
  have hkeeps : Keeps c c₁ := keeps_of_adds h.settled hadds
  have hmapped : Mapped c₁ := mapped_of_adds h (hkeeps.objects.length_le.trans hlength) hadds
  -- what the callback has not found it has added
  have hknown := known_of_callback (fun a ty hcontents => by
    by_contra hunknown
    have hnone := (typeAt_eq_none_iff hmapped hlength).mpr (Bool.eq_false_of_not_eq_true hunknown)
    rw [typeAt_callback h hlength hrun, hcontents, classAt_some, if_pos rfl] at hnone
    cases (Option.or_eq_none_iff.mp hnone).2) hrun
  have hop : ∀ {op : Coordinator → Operation} {accepted : Prop},
      Mailbox.Returns p (callback p contents) op accepted c → t.op = op c₁ :=
    fun hreturns => by rw [hreturns.eq_of_ok t c₁ hrun]
  cases contents with
  | mutexInit a | condInit a | semInit a n =>
    rw [hop Mailbox.returns_ensureObserved]
    exact ⟨rfl, rfl, nofun, hknown⟩
  | mutexLock a isStatic | condSignal a isStatic | condBroadcast a isStatic =>
    rw [hop Mailbox.returns_ensureInitialized]
    exact ⟨rfl, rfl, nofun, hknown⟩
  | mutexUnlock a | condDestroy a | semPost a | semWait a =>
    rw [hop Mailbox.returns_requireObserved]
    exact ⟨rfl, rfl, nofun, hknown⟩
  | condEnqueue a m isStatic =>
    rw [hop Mailbox.returns_condEnqueue]
    exact ⟨rfl, rfl, nofun, hknown⟩
  | condWait a m =>
    rw [hop Mailbox.returns_condWait]
    exact ⟨rfl, rfl, nofun, hknown⟩
  | threadCreate a =>
    -- the operation is on the runner, and the runner has the object at the handle
    obtain ⟨r, hop, hr⟩ := runner_of_threadCreate h hlength hrun
    rw [hop]
    have hobjid : c₁.getStateSequence.toState.objidForRunner r = some (c₁.getModelOfObject a) :=
      hmapped.settled.getObjidForRunnerAt hr
    refine ⟨rfl, ?_, fun r' heq => ?_, hknown⟩
    · rw [setsUp, hobjid]
      rfl
    · rw [← Operation.threadCreate.inj heq, hobjid]
      rfl
  | threadJoin target =>
    rw [hop Mailbox.returns_threadJoin]
    exact ⟨rfl, rfl, nofun, hknown⟩
  | threadExit | processExit | processAbort =>
    obtain ⟨ht, -⟩ := Prod.mk.inj hrun
    rw [← Except.ok.inj ht]
    exact ⟨rfl, rfl, nofun, hknown⟩
  | semDestroy a => cases (Prod.mk.inj (requireObserved_bind_run hrun).2).1
  | unregistered n => cases (Prod.mk.inj hrun).1

/-- An operation is described as long as the objects of its addresses and of the runners stay. -/
theorem Describes.congr (h : Describes c contents op)
    (hmodel : ∀ a, c.contains a = true → c₁.getModelOfObject a = c.getModelOfObject a)
    (hrunner : ∀ r i, c.getStateSequence.toState.objidForRunner r = some i →
      c₁.getStateSequence.toState.objidForRunner r = some i) : Describes c₁ contents op := by
  have hsame : ∀ a, contents.concerns a = true → c₁.getModelOfObject a = c.getModelOfObject a :=
    fun a ha => hmodel a (h.known a ha)
  refine ⟨h.operands.trans (List.map_congr_left fun x hx => ?_), ?_, fun r hr => ?_,
    fun a ha => ?_⟩
  · rw [hsame x.1 (concerns_iff.mpr (.inl ⟨x.2, hx⟩))]
  · have hsetsUp : contents.setsUp.map (fun x => (c.getModelOfObject x.1, x.2)) =
        contents.setsUp.map fun x => (c₁.getModelOfObject x.1, x.2) :=
      Option.map_congr fun x hx => by rw [hsame x.1 (concerns_of_setsUp hx)]
    rw [← hsetsUp, ← h.setsUp]
    cases op with
    | threadCreate r =>
      obtain ⟨i, hi⟩ := Option.isSome_iff_exists.mp (h.created r rfl)
      rw [ReusedAddresses.setsUp, ReusedAddresses.setsUp, hi, hrunner r i hi]
    | _ => rfl
  · obtain ⟨i, hi⟩ := Option.isSome_iff_exists.mp (h.created r hr)
    rw [hrunner r i hi]
    rfl
  · have hknown := h.known a ha
    rw [Coordinator.contains] at hknown ⊢
    rwa [hsame a ha]

theorem lookup_of_objidForRunner {r : RunnerId}
    (hi : c.getStateSequence.toState.objidForRunner r = some i) :
    c.getStateSequence.runnerToObjMap.lookup r = some i := by
  change c.getStateSequence.getObjidForRunnerAt c.getStateSequence.representative r = some i at hi
  rw [StateSequence.getObjidForRunnerAt] at hi
  split_ifs at hi
  exact hi

theorem Describes.keeps (h : Describes c contents op) (hkeeps : Keeps c c₁) (hm : Mapped c)
    (hlength : c.getStateSequence.visibleObjects.length ≤ objidInvalid) :
    Describes c₁ contents op := by
  refine h.congr (fun a ha => ?_) fun r i hi => ?_
  · obtain ⟨i, hi⟩ := (hm.contains_iff hlength).mp ha
    have hvalid := ((hm.lookup_lt a i hi).trans_le hlength).ne
    rw [Coordinator.getModelOfObject, Coordinator.getModelOfObject, hi,
      hkeeps.addresses a i hi]
  · exact hkeeps.settled.getObjidForRunnerAt (hkeeps.runners r i (lookup_of_objidForRunner hi))

end Types

/-! ### Executing -/

section Executing

variable {s s' : StateSequence} {t next : Transition} {op : Operation} {i j : ObjId}
  {o : VisibleObjectState} {c c' c₁ : Coordinator} {p : RunnerId} {contents : MailboxContents}
  {a : Addr}

/-- What executing the operation does to the classes of the objects. -/
structure Executes (s : StateSequence) (op : Operation) (s' : StateSequence) : Prop where
  settled : s'.Settled
  runners : s'.runnerToObjMap = s.runnerToObjMap
  types : ∀ j, (s'.toState.objectState j).map VisibleObjectState.objectType =
    (classAt (setsUp s.toState op) j).or
      ((s.toState.objectState j).map VisibleObjectState.objectType)

theorem setsUp_of_overwrites {s : McMini.State} (h : overwrites s op = some (i, o)) :
    setsUp s op = some (i, o.objectType) := by
  cases op with
  | conditionVariableInit c | semInit i n =>
    obtain ⟨rfl, rfl⟩ := Prod.mk.inj (Option.some.inj h)
    rfl
  | threadCreate target =>
    obtain ⟨i', hi, heq⟩ := Option.map_eq_some_iff.mp h
    obtain ⟨rfl, rfl⟩ := Prod.mk.inj heq
    rw [setsUp, hi]
    rfl
  | _ => cases h

theorem setsUp_of_not_overwrites {s : McMini.State} (h : overwrites s op = none) :
    setsUp s op = none ∨ ∃ m, op = .mutexInit m := by
  cases op with
  | mutexInit m => exact .inr ⟨m, rfl⟩
  | conditionVariableInit c | semInit i n => cases h
  | threadCreate target =>
    rw [overwrites, Option.map_eq_none_iff] at h
    rw [setsUp, h]
    exact .inl rfl
  | _ => exact .inl rfl

/-- Recording a state without a look at the old one. -/
theorem executes_overwrite (hs : s.Settled) (hi : i < s.visibleObjects.length)
    (hsetsUp : setsUp s.toState op = some (i, o.objectType)) :
    Executes s op (StateSequence.pushStateSnapshot
      { s with visibleObjects := StateSequence.pushNewStates s.visibleObjects [⟨i, o⟩] }) := by
  have hcurrent := StateSequence.current_pushStateSnapshot
    { s with visibleObjects := StateSequence.pushNewStates s.visibleObjects [⟨i, o⟩] }
  refine ⟨⟨(hs.consistent.pushNewStates _).pushStateSnapshot, hcurrent⟩, rfl, fun j => ?_⟩
  have hnodup : List.NodupKeys [(⟨i, o⟩ : Sigma fun _ : ObjId => VisibleObjectState)] :=
    List.nodupKeys_singleton _
  rw [hcurrent.objectState, hs.current.objectState, hsetsUp, classAt_some]
  show Option.map _ (Option.map _
    ((StateSequence.pushNewStates s.visibleObjects [⟨i, o⟩])[j]?)) = _
  rw [StateSequence.pushNewStates_getElem? _ hnodup]
  by_cases hij : i = j
  · subst hij
    rw [List.getElem?_eq_getElem hi, if_pos rfl, Option.some_or]
    simp
  · rw [if_neg hij, Option.none_or, List.dlookup_cons_ne _ _ (Ne.symm hij)]
    simp

/-- The two ways in which a transition may exist. -/
theorem follow_eq_exists : follow s t = (s', .ok .exists') ↔
    (overwrites s.toState t.op = none ∧ s.follow t = (s', .ok .exists')) ∨
      ∃ i o, overwrites s.toState t.op = some (i, o) ∧ s.toState.Active t.executor ∧
        s' = StateSequence.pushStateSnapshot
          { s with visibleObjects := StateSequence.pushNewStates s.visibleObjects [⟨i, o⟩] } := by
  rw [follow]
  rcases hop : overwrites s.toState t.op with _ | ⟨i, o⟩
  · simp
  · dsimp only
    rcases hexecutor : s.toState.getStateOfRunner t.executor with e | th
    · have hnot : ¬ s.toState.Active t.executor := fun hactive => by
        rw [McMini.State.getStateOfRunner_eq_ok.mpr hactive] at hexecutor
        cases hexecutor
      simp [hnot]
    · have hactive : s.toState.Active t.executor ↔ th.isActive = true := by
        rw [McMini.State.active_iff]
        have hthread := McMini.State.getStateOfRunner_eq_ok.mp hexecutor
        exact ⟨fun ⟨_, h, hrunning⟩ => hthread.unique h ▸ hrunning, fun h => ⟨th, hthread, h⟩⟩
      cases hrunning : th.isActive with
      | true => simp [hactive, hrunning, eq_comm]
      | false => simp [hactive, hrunning]

/-- **Executing a transition** changes the class of the object which it sets up only. -/
theorem executes_follow (hs : s.Settled)
    (hvalid : ∀ x, setsUp s.toState t.op = some x → x.1 < s.visibleObjects.length)
    (hfollow : ReusedAddresses.follow s t = (s', .ok .exists')) : Executes s t.op s' := by
  rcases follow_eq_exists.mp hfollow with ⟨hop, hfollow⟩ | ⟨i, o, hop, -, rfl⟩
  · have hstep := fire_eq_some_iff_step.mp (hs.current.follow hfollow).1
    have hcontinues := StateSequence.continues_follow hfollow
    refine ⟨hs.follow hfollow, hcontinues.runners, fun j => ?_⟩
    rw [hstep.objectType_eq]
    obtain hnone | ⟨m, hinit⟩ := setsUp_of_not_overwrites hop
    · rw [hnone]
      rfl
    · have hmutex : (s.toState.objectState m).map VisibleObjectState.objectType = some .mutex :=
        hstep.wellTyped.operand (by rw [hinit]; exact List.mem_singleton.mpr rfl)
      rw [hinit, setsUp, classAt_some]
      split_ifs with hj
      · rw [← hj, hmutex, Option.some_or]
      · rw [Option.none_or]
  · have hsetsUp := setsUp_of_overwrites hop
    exact executes_overwrite hs (hvalid _ hsetsUp) hsetsUp

/-- No object is added or taken away, whatever the transition sets up. -/
theorem objects_follow (hs : s.Settled)
    (hfollow : ReusedAddresses.follow s t = (s', .ok .exists')) :
    s'.Settled ∧ s'.visibleObjects.length = s.visibleObjects.length := by
  rcases follow_eq_exists.mp hfollow with ⟨-, hfollow⟩ | ⟨i, o, -, -, rfl⟩
  · exact ⟨hs.follow hfollow, (StateSequence.continues_follow hfollow).objects⟩
  · exact ⟨⟨(hs.consistent.pushNewStates _).pushStateSnapshot,
      StateSequence.current_pushStateSnapshot _⟩, StateSequence.pushNewStates_length _ _⟩

/-! #### Recording states of any objects -/

/-- What overwrites the state of an object is what sets it up without a look at it. -/
theorem overwrites_eq_some_iff {m : McMini.State} :
    overwrites m t.op = some (i, o) ↔ Unchecked.SetsUp t m i o := by
  constructor
  · intro h
    obtain ⟨p, op⟩ := t
    cases op with
    | conditionVariableInit c =>
      obtain ⟨rfl, rfl⟩ := Prod.mk.inj (Option.some.inj h)
      exact .conditionVariable rfl
    | semInit j n =>
      obtain ⟨rfl, rfl⟩ := Prod.mk.inj (Option.some.inj h)
      exact .semaphore rfl
    | threadCreate target =>
      obtain ⟨j, hj, heq⟩ := Option.map_eq_some_iff.mp h
      obtain ⟨rfl, rfl⟩ := Prod.mk.inj heq
      exact .thread rfl hj
    | _ => cases h
  · intro h
    cases h with
    | conditionVariable hop | semaphore hop =>
      rw [hop]
      rfl
    | thread hop hj =>
      rw [hop, overwrites, hj]
      rfl

/-- As long as the objects which are set up are the sequence's, this is following a transition where
states are recorded without a look at the objects. -/
theorem follow_eq_exists_iff_unchecked (hlength : s.visibleObjects.length ≤ objidInvalid)
    (hvalid : ∀ x, setsUp s.toState t.op = some x → x.1 < s.visibleObjects.length) :
    follow s t = (s', .ok .exists') ↔ Unchecked.follow s t = (s', .ok .exists') := by
  rw [follow_eq_exists]
  constructor
  · rintro (⟨-, hfollow⟩ | ⟨i, o, hop, hactive, rfl⟩)
    · exact Unchecked.follow_of_follow hlength hfollow
    · have hi : i < s.visibleObjects.length := hvalid _ (setsUp_of_overwrites hop)
      exact Unchecked.follow_of_setsUp hactive (overwrites_eq_some_iff.mp hop)
        (hi.trans_le hlength).ne hi
  · intro h
    obtain ⟨d, happly, -, rfl⟩ := Unchecked.follow_eq_exists h
    obtain ⟨hactive, hmodify⟩ := Unchecked.applyTo_eq_ok_exists.mp happly
    rcases hop : overwrites s.toState t.op with _ | ⟨i, o⟩
    · rcases Unchecked.modify_cases hmodify with hchecked | ⟨i, o, hset, -⟩
      · refine .inl ⟨rfl, ?_⟩
        rw [StateSequence.follow, Transition.applyTo_eq_ok_exists.mpr ⟨hactive, hchecked⟩]
      · cases hop.symm.trans (overwrites_eq_some_iff.mpr hset)
    · refine .inr ⟨i, o, rfl, hactive, ?_⟩
      have hi : i < s.visibleObjects.length := hvalid _ (setsUp_of_overwrites hop)
      have hset := Unchecked.follow_of_setsUp hactive (overwrites_eq_some_iff.mp hop)
        (hi.trans_le hlength).ne hi
      exact (Prod.mk.inj (h.symm.trans hset)).1

/-- McMini executes the runner: a callback translates what it reports into `t`, and the model
executes `next`, which was pending. -/
structure Executed (c : Coordinator) (p : RunnerId) (contents : MailboxContents)
    (c₁ : Coordinator) (next t : Transition) (c' : Coordinator) : Prop where
  keeps : Keeps c c₁
  adds : Adds (c.afterProcess p) c₁
  translates : (callback p contents).run (c.afterProcess p) = (.ok t, c₁)
  pending : c₁.currentProgramModel.nextSteps.lookup p = some next
  follow : ReusedAddresses.follow c₁.getStateSequence next = (c'.getStateSequence, .ok .exists')
  mapping : c'.systemAddressMapping = c₁.systemAddressMapping
  nextSteps : c'.currentProgramModel.nextSteps = c₁.currentProgramModel.nextSteps.insert p t

theorem executed_of_executeRunner (hs : c.getStateSequence.Settled)
    (h : executeRunner p contents c = some c') :
    ∃ c₁ next t, Executed c p contents c₁ next t c' := by
  rw [executeRunner] at h
  rcases hcallback : (McMini.callback p contents).run (c.afterProcess p) with ⟨e | t, c₁⟩
  · rw [hcallback] at h
    cases h
  · rw [hcallback] at h
    dsimp only at h
    rcases hnext : c₁.currentProgramModel.nextSteps.lookup p with _ | next
    · rw [hnext] at h
      cases h
    · rw [hnext] at h
      dsimp only at h
      have hadds := callback_adds p contents (c.afterProcess p)
      rw [hcallback] at hadds
      have hkeeps : Keeps (c.afterProcess p) c₁ := keeps_of_adds hs hadds
      rcases hfollow : ReusedAddresses.follow c₁.getStateSequence next with ⟨s', e | status⟩
      · rw [hfollow] at h
        cases h
      · rw [hfollow] at h
        cases status with
        | exists' =>
          obtain rfl := Option.some.inj h
          exact ⟨c₁, next, t, ⟨hkeeps.settled, hkeeps.objects, hkeeps.runners, hkeeps.addresses⟩,
            hadds, hcallback, hnext, hfollow, rfl, rfl⟩
        | disabled | undefined => cases h

theorem Executed.objects (h : Executed c p contents c₁ next t c') :
    c'.getStateSequence.Settled ∧ c'.getStateSequence.visibleObjects.length =
      c₁.getStateSequence.visibleObjects.length :=
  objects_follow h.keeps.settled h.follow

/-- The classes of the objects at the addresses, when the model has executed an operation. -/
theorem typeAt_executes {x : Option (Addr × ObjectType)} (hm : Mapped c₁)
    (hexecutes : Executes c₁.getStateSequence op c'.getStateSequence)
    (hmapping : c'.systemAddressMapping = c₁.systemAddressMapping)
    (hsetsUp : setsUp c₁.getStateSequence.toState op =
      x.map fun x => (c₁.getModelOfObject x.1, x.2))
    (hknown : ∀ y, x = some y → c₁.contains y.1 = true) :
    typeAt c' a = (classAt x a).or (typeAt c₁ a) := by
  rw [typeAt, typeAt, Coordinator.objectAt, Coordinator.objectAt, hmapping]
  rcases hlookup : c₁.systemAddressMapping.lookup a with _ | i
  · have hnone : classAt x a = none := by
      rcases x with _ | ⟨b, ty⟩
      · rfl
      · rw [classAt_some, if_neg]
        rintro rfl
        rw [lookup_getModelOfObject (hknown _ rfl)] at hlookup
        cases hlookup
    rw [hnone]
    rfl
  · have hsame : classAt (setsUp c₁.getStateSequence.toState op) i = classAt x a := by
      rw [hsetsUp]
      rcases x with _ | ⟨b, ty⟩
      · rfl
      · have hb := lookup_getModelOfObject (hknown _ rfl)
        have hiff : c₁.getModelOfObject b = i ↔ b = a := by
          constructor
          · intro heq
            exact hm.injective b a i (heq ▸ hb) hlookup
          · rintro rfl
            exact Option.some.inj (hb.symm.trans hlookup)
        rw [Option.map_some, classAt_some, classAt_some]
        exact if_congr hiff rfl rfl
    rw [Option.bind_some, Option.bind_some, hexecutes.types, hsame]

/-- Executing a transition leaves the addresses and the objects of the runners alone. -/
theorem Describes.executes (h : Describes c₁ contents op) {op' : Operation}
    (hexecutes : Executes c₁.getStateSequence op' c'.getStateSequence)
    (hmapping : c'.systemAddressMapping = c₁.systemAddressMapping) : Describes c' contents op := by
  refine h.congr (fun a _ => ?_) fun r i hi => ?_
  · rw [Coordinator.getModelOfObject, Coordinator.getModelOfObject, hmapping]
  · refine hexecutes.settled.getObjidForRunnerAt ?_
    rw [hexecutes.runners]
    exact lookup_of_objidForRunner hi

theorem Mapped.executes (h : Mapped c₁) (hexecuted : Executed c p contents c₁ next t c')
    (hexecutes : Executes c₁.getStateSequence op c'.getStateSequence) : Mapped c' := by
  refine ⟨hexecutes.settled, fun a i hi => ?_, fun a b i ha hb => ?_, fun q u hu => ?_⟩
  · rw [hexecuted.objects.2]
    rw [hexecuted.mapping] at hi
    exact h.lookup_lt a i hi
  · rw [hexecuted.mapping] at ha hb
    exact h.injective a b i ha hb
  · rw [hexecutes.runners]
    rw [hexecuted.nextSteps, lookup_insert] at hu
    split_ifs at hu with hq
    · exact hq ▸ h.pending_lt p next hexecuted.pending
    · exact h.pending_lt q u hu

end Executing

end McMini.ReusedAddresses
