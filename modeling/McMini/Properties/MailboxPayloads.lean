import McMini.RealWorld.Mailbox

/-!
# Mailboxes are read as they were written

For each of the operations which a wrapper reports, the callback which is registered for the type
in the mailbox reads the operands which the wrapper has written, whatever the mailbox contained
before (`translate_write`). The transition which it returns is that of the operation, with the
objects of the addresses in their roles and with the other operands as they are.

**The refusals.** A callback returns no transition but throws for an object which has not been
initialized, for a thread to be joined which the wrapper has not found, and for a created thread
whose handle cannot be added; `Message.Accepted` is where it does return one.
-/

namespace McMini.Mailbox

open Foundation Coordinator

/-- A report: an operation with the operands as the wrapper has them. -/
inductive Message
  | mutexInit (mutex : BitVec 64)
  | mutexLock (mutex : BitVec 64)
  | mutexUnlock (mutex : BitVec 64)
  | threadCreate (thread : BitVec 64)
  | threadJoin (rid : BitVec 16)
  | threadExit
  | processExit (status : BitVec 32)
  | processAbort
  | condEnqueue (cond mutex : BitVec 64)
  | condInit (cond : BitVec 64)
  | condWait (cond mutex : BitVec 64)
  | condSignal (cond : BitVec 64)
  | condBroadcast (cond : BitVec 64)
  | condDestroy (cond : BitVec 64)
  | semInit (sem : BitVec 64) (count : BitVec 32)
  | semWait (sem : BitVec 64)
  | semPost (sem : BitVec 64)
  deriving DecidableEq, Repr

namespace Message

/-- What the wrapper makes of the mailbox, if it stays within it. -/
def write (mb : RunnerMailbox) : Message → Option RunnerMailbox
  | .mutexInit mutex => mcPthreadMutexInit mb mutex
  | .mutexLock mutex => mcPthreadMutexLock mb mutex
  | .mutexUnlock mutex => mcPthreadMutexUnlock mb mutex
  | .threadCreate thread => mcPthreadCreate mb thread
  | .threadJoin rid => mcPthreadJoin mb rid
  | .threadExit => mcExitThread mb
  | .processExit status => mcTransparentExit mb status
  | .processAbort => mcTransparentAbort mb
  | .condEnqueue cond mutex => mcPthreadCondWait mb .condEnqueueType cond mutex
  | .condInit cond => mcPthreadCondInit mb cond
  | .condWait cond mutex => mcPthreadCondWait mb .condWaitType cond mutex
  | .condSignal cond => mcPthreadCondSignal mb cond
  | .condBroadcast cond => mcPthreadCondBroadcast mb cond
  | .condDestroy cond => mcPthreadCondDestroy mb cond
  | .semInit sem count => mcSemInit mb sem count
  | .semWait sem => mcSemWait mb sem
  | .semPost sem => mcSemPost mb sem

/-- The report as the callbacks of the coordinator take it. -/
def contents (memory : TargetMemory) : Message → MailboxContents
  | .mutexInit mutex => .mutexInit mutex.toNat
  | .mutexLock mutex => .mutexLock mutex.toNat (memory.mutexIsStaticInitializer mutex.toNat)
  | .mutexUnlock mutex => .mutexUnlock mutex.toNat
  | .threadCreate thread => .threadCreate thread.toNat
  | .threadJoin rid => .threadJoin rid.toNat
  | .threadExit => .threadExit
  | .processExit status => .processExit status.toInt
  | .processAbort => .processAbort
  | .condEnqueue cond mutex =>
    .condEnqueue cond.toNat mutex.toNat (memory.condIsStaticInitializer cond.toNat)
  | .condInit cond => .condInit cond.toNat
  | .condWait cond mutex => .condWait cond.toNat mutex.toNat
  | .condSignal cond => .condSignal cond.toNat (memory.condIsStaticInitializer cond.toNat)
  | .condBroadcast cond => .condBroadcast cond.toNat (memory.condIsStaticInitializer cond.toNat)
  | .condDestroy cond => .condDestroy cond.toNat
  | .semInit sem count => .semInit sem.toNat count
  | .semWait sem => .semWait sem.toNat
  | .semPost sem => .semPost sem.toNat

/-- The operation of the model, with the objects which the coordinator has for the addresses. -/
def operation (c : Coordinator) : Message → Operation
  | .mutexInit mutex => .mutexInit (c.getModelOfObject mutex.toNat)
  | .mutexLock mutex => .mutexLock (c.getModelOfObject mutex.toNat)
  | .mutexUnlock mutex => .mutexUnlock (c.getModelOfObject mutex.toNat)
  | .threadCreate thread => .threadCreate (c.getModelOfRunner thread.toNat)
  | .threadJoin rid => .threadJoin rid.toNat
  | .threadExit => .threadExit
  | .processExit status => .processExit status.toInt
  | .processAbort => .processAbort
  | .condEnqueue cond mutex =>
    .conditionVariableEnqueueThread (c.getModelOfObject cond.toNat) (c.getModelOfObject mutex.toNat)
  | .condInit cond => .conditionVariableInit (c.getModelOfObject cond.toNat)
  | .condWait cond mutex =>
    .conditionVariableWait (c.getModelOfObject cond.toNat) (c.getModelOfObject mutex.toNat)
  | .condSignal cond => .conditionVariableSignal (c.getModelOfObject cond.toNat)
  | .condBroadcast cond => .conditionVariableBroadcast (c.getModelOfObject cond.toNat)
  | .condDestroy cond => .conditionVariableDestroy (c.getModelOfObject cond.toNat)
  | .semInit sem count => .semInit (c.getModelOfObject sem.toNat) count
  | .semWait sem => .semWait (c.getModelOfObject sem.toNat)
  | .semPost sem => .semPost (c.getModelOfObject sem.toNat)

/-- The object is known, or is statically initialized. -/
def Usable (c : Coordinator) (address : Addr) (isStaticInitializer : Bool) : Prop :=
  c.contains address = true ∨ isStaticInitializer = true

/-- The callback does not refuse the operands. -/
def Accepted (memory : TargetMemory) (c : Coordinator) : Message → Prop
  | .mutexLock mutex => Usable c mutex.toNat (memory.mutexIsStaticInitializer mutex.toNat)
  | .condSignal cond | .condBroadcast cond =>
    Usable c cond.toNat (memory.condIsStaticInitializer cond.toNat)
  | .condEnqueue cond mutex =>
    Usable c cond.toNat (memory.condIsStaticInitializer cond.toNat) ∧
      (if c.contains cond.toNat then c else
        c.observe cond.toNat (.conditionVariable { currentState := .initialized })).contains
          mutex.toNat = true
  | .condWait cond mutex => c.contains cond.toNat = true ∧ c.contains mutex.toNat = true
  | .mutexUnlock object | .condDestroy object | .semWait object | .semPost object =>
    c.contains object.toNat = true
  | .threadCreate thread => c.containsRunner thread.toNat = true ∨
      ∃ d, (observeRunner thread.toNat ⟨.embryo⟩ fun id => ⟨id, .threadStart⟩).run c = (.ok (), d)
  | .threadJoin rid => rid.toNat ≠ ridInvalid
  | .mutexInit _ | .condInit _ | .semInit _ _ | .threadExit | .processExit _ | .processAbort => True

end Message

/-! ### The bytes -/

section Bytes

variable {mb mb' : RunnerMailbox} {offset n : ℕ}

theorem load_eq (h : offset + n ≤ 64) : ∃ bytes : Vector (BitVec 8) n,
    mb.load offset n = some (ofBytes bytes) ∧ ∀ i < n, bytes[i]? = mb.cnts[offset + i]? := by
  obtain ⟨bytes, hbytes, hget⟩ := @memcpyV_eq n 64 n 0 offset (Vector.replicate n 0) mb.cnts
    (Nat.zero_add n).le h
  refine ⟨bytes, by rw [RunnerMailbox.load, hbytes]; rfl, fun i hi => ?_⟩
  rw [hget, if_pos (by omega), Nat.sub_zero]

theorem bytes_ext {bytes bytes' : Vector (BitVec 8) n}
    (h : ∀ i < n, bytes[i]? = bytes'[i]?) : bytes = bytes' := by
  refine Vector.ext fun i hi => Option.some.inj ?_
  rw [← Vector.getElem?_eq_getElem hi, ← Vector.getElem?_eq_getElem hi]
  exact h i hi

/-- Two buffers with the same bytes there hold the same number. -/
theorem load_congr (h : offset + n ≤ 64)
    (hsame : ∀ i < n, mb'.cnts[offset + i]? = mb.cnts[offset + i]?) :
    mb'.load offset n = mb.load offset n := by
  obtain ⟨bytes, hbytes, hget⟩ := @load_eq mb offset n h
  obtain ⟨bytes', hbytes', hget'⟩ := @load_eq mb' offset n h
  have heq : bytes' = bytes :=
    bytes_ext fun i hi => (hget' i hi).trans ((hsame i hi).trans (hget i hi).symm)
  rw [hbytes, hbytes', heq]

/-- What is stored within the mailbox is loaded again, and what lies before it is as it was. -/
theorem store_eq (h : offset + n ≤ 64) (x : ℕ) :
    ∃ mb', mb.store offset n x = some mb' ∧ mb'.type = mb.type ∧
      mb'.load offset n = some (x % 256 ^ n) ∧
      ∀ m, m ≤ offset → mb'.load 0 m = mb.load 0 m := by
  obtain ⟨cnts, hcnts, hget⟩ := @memcpyV_eq 64 n n offset 0 mb.cnts (toBytes n x) h
    (Nat.zero_add n).le
  refine ⟨{ mb with cnts }, by rw [RunnerMailbox.store, hcnts]; rfl, rfl, ?_, fun m hm => ?_⟩
  · obtain ⟨bytes, hbytes, hget'⟩ := @load_eq { mb with cnts } offset n h
    have heq : bytes = toBytes n x := by
      refine bytes_ext fun i hi => ?_
      rw [hget' i hi, hget, if_pos (by omega), Nat.add_sub_cancel_left, Nat.zero_add]
    rw [hbytes, heq, ofBytes_toBytes]
  · refine load_congr (by omega) fun i hi => ?_
    rw [hget, if_neg (by omega)]

/-- A word is loaded as it was stored. -/
theorem store_word {w : ℕ} (hw : 2 ^ w = 256 ^ n) (h : offset + n ≤ 64) (x : BitVec w) :
    ∃ mb', mb.store offset n x.toNat = some mb' ∧ mb'.type = mb.type ∧
      mb'.load offset n = some x.toNat ∧ ∀ m, m ≤ offset → mb'.load 0 m = mb.load 0 m := by
  obtain ⟨mb', hstore, htype, hload, hbefore⟩ := store_eq h x.toNat
  rw [Nat.mod_eq_of_lt (hw ▸ x.isLt)] at hload
  exact ⟨mb', hstore, htype, hload, hbefore⟩

theorem fetch_bind {α : Type} {value : ℕ} (h : mb.load offset n = some value)
    (f : ℕ → CoordinatorM α) : (fetch mb offset n >>= f) = f value := by
  rw [fetch, h]
  rfl

end Bytes

/-! ### What is written is read -/

/-- The reports of two words, the second right behind the first. -/
theorem store_pair (mb : RunnerMailbox) {w n : ℕ} (hw : 2 ^ w = 256 ^ n) (hn : 8 + n ≤ 64)
    (first : BitVec 64) (second : BitVec w) : ∃ rmb,
    ((mb.store 0 sizeofPointer first.toNat).bind fun mb =>
      mb.store sizeofPointer n second.toNat) = some rmb ∧ rmb.type = mb.type ∧
      rmb.load 0 sizeofPointer = some first.toNat ∧
      rmb.load sizeofPointer n = some second.toNat := by
  obtain ⟨mb₁, hstore₁, htype₁, hload₁, -⟩ :=
    @store_word mb 0 sizeofPointer 64 (by decide) (by decide) first
  obtain ⟨rmb, hstore, htype, hload, hbefore⟩ := @store_word mb₁ sizeofPointer n w hw hn second
  refine ⟨rmb, ?_, htype.trans htype₁, (hbefore sizeofPointer le_rfl).trans hload₁, hload⟩
  rw [hstore₁]
  exact hstore

theorem mcPthreadCondWait_eq (mb : RunnerMailbox) (type : TransitionType)
    (cond mutex : BitVec 64) : ∃ rmb, mcPthreadCondWait mb type cond mutex = some rmb ∧
      rmb.type = type.value ∧ rmb.load 0 sizeofPointer = some cond.toNat ∧
      rmb.load sizeofPointer sizeofPointer = some mutex.toNat :=
  @store_pair (mb.setType type) 64 sizeofPointer (by decide) (by decide) cond mutex

/-- The enumerators in the order of their values. -/
def enumerators : List TransitionType :=
  [.invisibleOperationType, .mutexInitType, .mutexLockType, .mutexUnlockType, .threadCreateType,
    .threadJoinType, .threadExitType, .processExitType, .processAbortType, .condEnqueueType,
    .condInitType, .condWaitType, .condSignalType, .condBroadcastType, .condDestroyType,
    .semInitType, .semWaitType, .semPostType, .semDestroyType]

/-- The registry finds the callback of a type by its value. -/
theorem getCallbackFor_value (type : TransitionType) : getCallbackFor type.value =
    (defaultRegistry.find? fun entry => entry.1 = type).map Prod.snd := by
  have hinverse : ∀ type : TransitionType, enumerators[type.value.toNat]? = some type := by
    intro type
    cases type <;> rfl
  have hinjective : ∀ a b : TransitionType, a.value = b.value ↔ a = b := by
    intro a b
    refine ⟨fun h => ?_, fun h => h ▸ rfl⟩
    have heq := hinverse a
    rw [h, hinverse b] at heq
    exact (Option.some.inj heq).symm
  rw [getCallbackFor]
  congr 2
  funext entry
  exact decide_eq_decide.mpr (hinjective entry.1 type)

theorem translate_eq (type : TransitionType) {discover : TransitionDiscoveryCallback}
    {rmb : RunnerMailbox} (htype : rmb.type = type.value)
    (hregistered : (defaultRegistry.find? fun entry => entry.1 = type).map Prod.snd =
      some discover) (p : RunnerId) (memory : TargetMemory) :
    translate p rmb memory = discover p rmb memory := by
  rw [translate, htype, getCallbackFor_value, hregistered]

theorem translate_reportObject {type : TransitionType}
    {f : RunnerId → TargetMemory → Addr → CoordinatorM Transition}
    (hregistered : (defaultRegistry.find? fun entry => entry.1 = type).map Prod.snd =
      some (ofObject f)) (mb : RunnerMailbox) (object : BitVec 64) :
    ∃ rmb, reportObject mb type object = some rmb ∧
      ∀ p memory, translate p rmb memory = f p memory object.toNat := by
  obtain ⟨rmb, hstore, htype, hload, -⟩ :=
    @store_word (mb.setType type) 0 sizeofPointer 64 (by decide) (by decide) object
  refine ⟨rmb, hstore, fun p memory => (translate_eq type htype hregistered p memory).trans ?_⟩
  exact fetch_bind hload _

/-- **What the wrapper has written is what the callback reads.** -/
theorem translate_write (message : Message) (mb : RunnerMailbox) :
    ∃ rmb, message.write mb = some rmb ∧
      ∀ p memory, translate p rmb memory = callback p (message.contents memory) := by
  cases message with
  | mutexInit mutex => exact @translate_reportObject .mutexInitType _ rfl mb mutex
  | mutexLock mutex => exact @translate_reportObject .mutexLockType _ rfl mb mutex
  | mutexUnlock mutex => exact @translate_reportObject .mutexUnlockType _ rfl mb mutex
  | condInit cond => exact @translate_reportObject .condInitType _ rfl mb cond
  | condSignal cond => exact @translate_reportObject .condSignalType _ rfl mb cond
  | condBroadcast cond => exact @translate_reportObject .condBroadcastType _ rfl mb cond
  | condDestroy cond => exact @translate_reportObject .condDestroyType _ rfl mb cond
  | semWait sem => exact @translate_reportObject .semWaitType _ rfl mb sem
  | semPost sem => exact @translate_reportObject .semPostType _ rfl mb sem
  | condEnqueue cond mutex =>
    obtain ⟨rmb, hwrite, htype, hcond, hmutex⟩ :=
      mcPthreadCondWait_eq mb .condEnqueueType cond mutex
    refine ⟨rmb, hwrite, fun p memory => (translate_eq .condEnqueueType htype rfl p memory).trans ?_⟩
    exact (fetch_bind hcond _).trans (fetch_bind hmutex _)
  | condWait cond mutex =>
    obtain ⟨rmb, hwrite, htype, hcond, hmutex⟩ := mcPthreadCondWait_eq mb .condWaitType cond mutex
    refine ⟨rmb, hwrite, fun p memory => (translate_eq .condWaitType htype rfl p memory).trans ?_⟩
    exact (fetch_bind hcond _).trans (fetch_bind hmutex _)
  | semInit sem count =>
    obtain ⟨rmb, hwrite, htype, hsem, hcount⟩ :=
      store_pair (mb.setType .semInitType) (by decide : 2 ^ 32 = 256 ^ sizeofInt) (by decide) sem
        count
    refine ⟨rmb, hwrite, fun p memory => (translate_eq .semInitType htype rfl p memory).trans ?_⟩
    refine (fetch_bind hsem _).trans ((fetch_bind hcount _).trans ?_)
    -- the wrapper stores an `int`, and the callback reads it as one
    rw [BitVec.ofNat_toNat, BitVec.setWidth_eq, BitVec.ofInt_toInt]
    rfl
  | threadCreate thread =>
    obtain ⟨rmb, hstore, -, hload, -⟩ :=
      @store_word mb 0 sizeofPthread 64 (by decide) (by decide) thread
    refine ⟨rmb.setType .threadCreateType, by rw [Message.write, mcPthreadCreate, hstore]; rfl,
      fun p memory => ?_⟩
    -- here the type is written after the payload, which it leaves alone
    exact (translate_eq .threadCreateType rfl rfl p memory).trans (fetch_bind hload _)
  | threadJoin rid =>
    obtain ⟨rmb, hstore, -, hload, -⟩ :=
      @store_word mb 0 sizeofRunnerId 16 (by decide) (by decide) rid
    refine ⟨rmb.setType .threadJoinType, by rw [Message.write, mcPthreadJoin, hstore]; rfl,
      fun p memory => ?_⟩
    exact (translate_eq .threadJoinType rfl rfl p memory).trans (fetch_bind hload _)
  | processExit status =>
    obtain ⟨rmb, hstore, htype, hload, -⟩ :=
      @store_word (mb.setType .processExitType) 0 sizeofInt 32 (by decide) (by decide) status
    refine ⟨rmb, hstore, fun p memory => (translate_eq .processExitType htype rfl p memory).trans ?_⟩
    refine (fetch_bind hload _).trans ?_
    rw [BitVec.ofNat_toNat, BitVec.setWidth_eq]
    rfl
  | threadExit => exact ⟨_, rfl, fun p memory => translate_eq .threadExitType rfl rfl p memory⟩
  | processAbort => exact ⟨_, rfl, fun p memory => translate_eq .processAbortType rfl rfl p memory⟩

/-! ### The transitions -/

/-- The computation returns the transition of the operation, exactly where the operands are
accepted. -/
structure Returns (p : RunnerId) (x : CoordinatorM Transition) (op : Coordinator → Operation)
    (accepted : Prop) (c : Coordinator) : Prop where
  eq_of_ok : ∀ t c', x.run c = (.ok t, c') → t = ⟨p, op c'⟩
  ok_iff : (∃ t c', x.run c = (.ok t, c')) ↔ accepted

section Returns

variable {p : RunnerId} {x : CoordinatorM Transition} {op : Coordinator → Operation}
  {accepted : Prop} {c d : Coordinator} {e : Failure} {address : Addr} {o : VisibleObjectState}
  {message : String}

theorem returns_of_ok (h : x.run c = (.ok ⟨p, op d⟩, d)) (ha : accepted) :
    Returns p x op accepted c where
  eq_of_ok := by
    intro t c' hrun
    obtain ⟨ht, rfl⟩ := Prod.mk.inj (h.symm.trans hrun)
    exact (Except.ok.inj ht).symm
  ok_iff := ⟨fun _ => ha, fun _ => ⟨_, d, h⟩⟩

theorem returns_of_error (h : x.run c = (.error e, d)) (ha : ¬ accepted) :
    Returns p x op accepted c where
  eq_of_ok := by
    intro t c' hrun
    cases (Prod.mk.inj (h.symm.trans hrun)).1
  ok_iff := by
    refine ⟨fun ⟨t, c', hrun⟩ => ?_, fun h => absurd h ha⟩
    cases (Prod.mk.inj (h.symm.trans hrun)).1

theorem returns_ensureObserved {op : ObjId → Operation} :
    Returns p (ensureObserved address o >>= fun _ => modelOf address >>= fun i => pure ⟨p, op i⟩)
      (fun c => op (c.getModelOfObject address)) True c := by
  refine returns_of_ok (d := if c.contains address then c else c.observe address o) ?_ trivial
  simp only [run_bind, ensureObserved_run, modelOf_run, run_pure]

theorem returns_ensureInitialized {isStaticInitializer : Bool} {op : ObjId → Operation} :
    Returns p (ensureInitialized address isStaticInitializer o message >>= fun _ =>
        modelOf address >>= fun i => pure ⟨p, op i⟩)
      (fun c => op (c.getModelOfObject address)) (Message.Usable c address isStaticInitializer) c := by
  by_cases hknown : c.contains address = true
  · refine returns_of_ok (d := c) ?_ (.inl hknown)
    simp only [run_bind, ensureInitialized_run, modelOf_run, run_pure, hknown, if_true]
  · cases isStaticInitializer with
    | true =>
      refine returns_of_ok (d := c.observe address o) ?_ (.inr rfl)
      simp only [run_bind, ensureInitialized_run, modelOf_run, run_pure, hknown, if_true, if_false,
        Bool.false_eq_true]
    | false =>
      have hunusable : ¬ Message.Usable c address false := by
        rintro (h | h)
        · exact hknown h
        · cases h
      refine returns_of_error (e := .undefinedBehaviorException message) (d := c) ?_ hunusable
      simp only [run_bind, ensureInitialized_run, hknown, if_false, Bool.false_eq_true]

theorem returns_requireObserved {op : ObjId → Operation} :
    Returns p (requireObserved address message >>= fun _ =>
        modelOf address >>= fun i => pure ⟨p, op i⟩)
      (fun c => op (c.getModelOfObject address)) (c.contains address = true) c := by
  by_cases hknown : c.contains address = true
  · refine returns_of_ok (d := c) ?_ hknown
    simp only [run_bind, requireObserved_run, modelOf_run, run_pure, hknown, if_true]
  · refine returns_of_error (e := .undefinedBehaviorException message) (d := c) ?_ hknown
    simp only [run_bind, requireObserved_run, hknown, if_false, Bool.false_eq_true]

theorem returns_condEnqueue {cond mutex : Addr} {isStaticInitializer : Bool} :
    Returns p (condWaitingThreadEnqueueCallback p cond mutex isStaticInitializer)
      (fun c => .conditionVariableEnqueueThread (c.getModelOfObject cond) (c.getModelOfObject mutex))
      (Message.Usable c cond isStaticInitializer ∧ (if c.contains cond then c else
        c.observe cond (.conditionVariable { currentState := .initialized })).contains mutex = true)
      c := by
  let d := if c.contains cond then c else
    c.observe cond (.conditionVariable { currentState := .initialized })
  by_cases husable : Message.Usable c cond isStaticInitializer
  · have hcond : (ensureCondInitialized cond isStaticInitializer
        "Attempting to wait on an uninitialized condition variable").run c = (.ok (), d) := by
      rw [ensureCondInitialized, ensureInitialized_run]
      by_cases hknown : c.contains cond = true
      · simp only [d, hknown, if_true]
      · simp only [d, hknown, if_false, husable.resolve_left hknown, if_true, Bool.false_eq_true]
    by_cases hmutex : d.contains mutex = true
    · refine returns_of_ok (d := d) ?_ ⟨husable, hmutex⟩
      simp only [condWaitingThreadEnqueueCallback, run_bind, hcond, requireObserved_run, modelOf_run,
        run_pure, hmutex, if_true]
    · refine returns_of_error (e := .undefinedBehaviorException
        "Attempting to wait on a condition variable with an uninitialized mutex") (d := d) ?_
        fun h => hmutex h.2
      simp only [condWaitingThreadEnqueueCallback, run_bind, hcond, requireObserved_run, hmutex,
        if_false, Bool.false_eq_true]
  · have hunknown : c.contains cond = false :=
      Bool.eq_false_iff.mpr fun h => husable (.inl h)
    have hdynamic : isStaticInitializer = false :=
      Bool.eq_false_iff.mpr fun h => husable (.inr h)
    refine returns_of_error (e := .undefinedBehaviorException
      "Attempting to wait on an uninitialized condition variable") (d := c) ?_ fun h => husable h.1
    simp only [condWaitingThreadEnqueueCallback, run_bind, ensureCondInitialized,
      ensureInitialized_run, hunknown, hdynamic, if_false, Bool.false_eq_true]

theorem returns_condWait {cond mutex : Addr} : Returns p (condWaitCallback p cond mutex)
    (fun c => .conditionVariableWait (c.getModelOfObject cond) (c.getModelOfObject mutex))
    (c.contains cond = true ∧ c.contains mutex = true) c := by
  by_cases hcond : c.contains cond = true
  · by_cases hmutex : c.contains mutex = true
    · refine returns_of_ok (d := c) ?_ ⟨hcond, hmutex⟩
      simp only [condWaitCallback, run_bind, requireObserved_run, modelOf_run, run_pure, hcond,
        hmutex, if_true]
    · refine returns_of_error (e := .undefinedBehaviorException
        "Attempting to wait on a condition variable with an uninitialized mutex") (d := c) ?_
        fun h => hmutex h.2
      simp only [condWaitCallback, run_bind, requireObserved_run, hcond, hmutex, if_true, if_false,
        Bool.false_eq_true]
  · refine returns_of_error (e := .undefinedBehaviorException
      "Attempting to wait on an uninitialized condition variable") (d := c) ?_ fun h => hcond h.1
    simp only [condWaitCallback, run_bind, requireObserved_run, hcond, if_false,
      Bool.false_eq_true]

theorem returns_threadCreate {thread : Addr} : Returns p (threadCreateCallback p thread)
    (fun c => .threadCreate (c.getModelOfRunner thread))
    (c.containsRunner thread = true ∨
      ∃ d, (observeRunner thread ⟨.embryo⟩ fun id => ⟨id, .threadStart⟩).run c = (.ok (), d)) c := by
  by_cases hrunner : c.containsRunner thread = true
  · refine returns_of_ok (d := c) ?_ (.inl hrunner)
    simp only [threadCreateCallback, run_bind, run_get, run_pure, hrunner, Bool.not_true, if_false,
      Bool.false_eq_true]
  · rw [Bool.not_eq_true] at hrunner
    rcases hobserve : (observeRunner thread ⟨.embryo⟩ fun id => ⟨id, .threadStart⟩).run c
      with ⟨e | u, d⟩
    · refine returns_of_error (e := e) (d := d) ?_ ?_
      · simp only [threadCreateCallback, run_bind, run_get, hrunner, Bool.not_false, if_true,
          hobserve]
      · rintro (h | ⟨d', h⟩)
        · exact Bool.false_ne_true (hrunner.symm.trans h)
        · cases (Prod.mk.inj h).1
    · refine returns_of_ok (d := d) ?_ (.inr ⟨d, rfl⟩)
      simp only [threadCreateCallback, run_bind, run_get, run_pure, hrunner, Bool.not_false, if_true,
        hobserve]

theorem returns_threadJoin {target : RunnerId} : Returns p (threadJoinCallback p target)
    (fun _ => .threadJoin target) (target ≠ ridInvalid) c := by
  by_cases h : target = ridInvalid
  · refine returns_of_error (e := .runtimeError
      "Attemping to join on an unmodeled thread (ffff) unrecognized") (d := c) ?_ (not_not.mpr h)
    simp only [threadJoinCallback, if_pos h]
    rfl
  · refine returns_of_ok (d := c) ?_ h
    simp only [threadJoinCallback, if_neg h]
    rfl

end Returns

theorem returns_callback (p : RunnerId) (memory : TargetMemory) (message : Message)
    (c : Coordinator) : Returns p (callback p (message.contents memory))
      (fun c => message.operation c) (message.Accepted memory c) c := by
  cases message with
  | mutexInit mutex | condInit cond | semInit sem count => exact returns_ensureObserved
  | mutexLock mutex | condSignal cond | condBroadcast cond => exact returns_ensureInitialized
  | mutexUnlock object | condDestroy object | semWait object | semPost object =>
    exact returns_requireObserved
  | condEnqueue cond mutex => exact returns_condEnqueue
  | condWait cond mutex => exact returns_condWait
  | threadCreate thread => exact returns_threadCreate
  | threadJoin rid => exact returns_threadJoin
  | threadExit | processExit status | processAbort => exact returns_of_ok rfl trivial

/-- Each report is written within the mailbox, and read as it was written: what it is translated
to does not depend on what the mailbox contained before, it is the transition of the operation
with the operands of the report, and there is one unless the operands are refused. -/
theorem payload_decodes (message : Message) (mb : RunnerMailbox) :
    ∃ rmb, message.write mb = some rmb ∧ ∀ p memory,
      translate p rmb memory = callback p (message.contents memory) ∧
      ∀ c, (∀ t c', (translate p rmb memory).run c = (.ok t, c') → t = ⟨p, message.operation c'⟩) ∧
        ((∃ t c', (translate p rmb memory).run c = (.ok t, c')) ↔ message.Accepted memory c) := by
  obtain ⟨rmb, hwrite, hread⟩ := translate_write message mb
  refine ⟨rmb, hwrite, fun p memory => ⟨hread p memory, fun c => ?_⟩⟩
  have hreturns := returns_callback p memory message c
  rw [hread p memory]
  exact ⟨hreturns.eq_of_ok, hreturns.ok_iff⟩

/-- For a thread which `search_pthread_map` does not know, the wrapper reports `RID_INVALID`,
which no transition joins. -/
theorem not_always_translated : ¬ ∀ (message : Message) (mb rmb : RunnerMailbox),
    message.write mb = some rmb → ∀ p memory c, ∃ t c',
      (translate p rmb memory).run c = (.ok t, c') ∧ t = ⟨p, message.operation c'⟩ := by
  intro h
  let message : Message := .threadJoin 65535
  let mb : RunnerMailbox := ⟨0, Vector.replicate 64 0⟩
  let memory : TargetMemory := ⟨fun _ => false, fun _ => false⟩
  let c : Coordinator := ⟨.startingFromMain, ∅, []⟩
  obtain ⟨rmb, hwrite, hread⟩ := translate_write message mb
  obtain ⟨t, c', hrun, -⟩ := h message mb rmb hwrite ridMainThread memory c
  rw [hread ridMainThread memory] at hrun
  exact (returns_callback ridMainThread memory message c).ok_iff.mp ⟨t, c', hrun⟩ rfl

end McMini.Mailbox
