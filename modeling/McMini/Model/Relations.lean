import McMini.Model.Transition

/-!
# Dependency and co-enabledness

The two relations which the search consults are computed by double dispatch on the classes
of two transitions. A table has entries for pairs of classes, each registered in both
orders, and entries for a single class, whose method accepts any other transition. The
order of the lookup matters: a class which has a row of pair entries never reaches the
single-class entries, and a pair missing from its row gives the fallback.
-/

namespace McMini

/-- What `typeid` distinguishes: the class of a transition. -/
inductive TransitionClass
  | mutexInit | mutexLock | mutexUnlock
  | conditionVariableInit | conditionVariableEnqueueThread | conditionVariableWait
  | conditionVariableSignal | conditionVariableBroadcast | conditionVariableDestroy
  | semInit | semPost | semWait
  | threadCreate | threadStart | threadJoin | threadExit
  | processExit | processAbort
  deriving DecidableEq, Repr

namespace Transition

def typeId (t : Transition) : TransitionClass :=
  match t.op with
  | .mutexInit _ => .mutexInit
  | .mutexLock _ => .mutexLock
  | .mutexUnlock _ => .mutexUnlock
  | .conditionVariableInit _ => .conditionVariableInit
  | .conditionVariableEnqueueThread _ _ => .conditionVariableEnqueueThread
  | .conditionVariableWait _ _ => .conditionVariableWait
  | .conditionVariableSignal _ => .conditionVariableSignal
  | .conditionVariableBroadcast _ => .conditionVariableBroadcast
  | .conditionVariableDestroy _ => .conditionVariableDestroy
  | .semInit _ _ => .semInit
  | .semPost _ => .semPost
  | .semWait _ => .semWait
  | .threadCreate _ => .threadCreate
  | .threadStart => .threadStart
  | .threadJoin _ => .threadJoin
  | .threadExit => .threadExit
  | .processExit _ => .processExit
  | .processAbort => .processAbort

/-- The accessor `get_id` of the classes which have one: the condition variable for
operations on one, else the mutex or the semaphore. -/
def getId (t : Transition) : Option ObjId :=
  match t.op with
  | .mutexInit m | .mutexLock m | .mutexUnlock m => some m
  | .conditionVariableInit c | .conditionVariableEnqueueThread c _
  | .conditionVariableWait c _ | .conditionVariableSignal c
  | .conditionVariableBroadcast c | .conditionVariableDestroy c => some c
  | .semInit i _ | .semPost i | .semWait i => some i
  | _ => none

/-- The member `mutex_id` of the classes which have both a condition variable and a
mutex. -/
def mutexId (t : Transition) : Option ObjId :=
  match t.op with
  | .conditionVariableEnqueueThread _ m | .conditionVariableWait _ m => some m
  | _ => none

/-- The member `target` of `thread_create` and `thread_join`. -/
def target (t : Transition) : Option RunnerId :=
  match t.op with
  | .threadCreate b | .threadJoin b => some b
  | _ => none

end Transition

/-! ### The dispatch table -/

/-- A registered method, applied to the transition it belongs to and to another one. -/
abbrev DispatchEntry := Transition → Transition → Bool

/-- `double_dispatch_member_function_table`. The newest entry for a key counts. -/
structure DispatchTable where
  internalTable : List ((TransitionClass × TransitionClass) × DispatchEntry) := []
  interfaceMemberFunctionTable : List (TransitionClass × DispatchEntry) := []

namespace DispatchTable

/-- Registers a method of the class `T` which accepts any transition. -/
def registerInterfaceEntry (table : DispatchTable) (T : TransitionClass)
    (callback : DispatchEntry) : DispatchTable :=
  { table with
    interfaceMemberFunctionTable := (T, callback) :: table.interfaceMemberFunctionTable }

/-- Registers a method of the class `T₁` which accepts the class `T₂`, in both orders. -/
def registerEntry (table : DispatchTable) (T₁ T₂ : TransitionClass)
    (callback : DispatchEntry) : DispatchTable :=
  { table with
    internalTable := ((T₂, T₁), fun t₁ t₂ => callback t₂ t₁) :: ((T₁, T₂), callback) ::
      table.internalTable }

/-- The class has a row of pair entries. -/
def hasRow (table : DispatchTable) (T : TransitionClass) : Bool :=
  table.internalTable.any fun e => e.1.1 == T

/-- Looks up the pair of classes if the first has a row, else the class of the first
transition, else the class of the second. -/
def callOr (table : DispatchTable) (fallback : Bool) (t₁ t₂ : Transition) : Bool :=
  if table.hasRow t₁.typeId then
    match table.internalTable.lookup (t₁.typeId, t₂.typeId) with
    | some callback => callback t₁ t₂
    | none => fallback
  else
    match table.interfaceMemberFunctionTable.lookup t₁.typeId with
    | some callback => callback t₁ t₂
    | none =>
      match table.interfaceMemberFunctionTable.lookup t₂.typeId with
      | some callback => callback t₂ t₁
      | none => fallback

end DispatchTable

/-! ### The registered methods -/

/-- `thread_create::depends`. -/
def ThreadCreate.depends (self t : Transition) : Bool := self.target == some t.executor

/-- `thread_join::depends`. -/
def ThreadJoin.depends (self t : Transition) : Bool := self.target == some t.executor

/-- `mutex_lock::depends(const mutex_init*)`. -/
def MutexLock.dependsMutexInit (self mi : Transition) : Bool := self.getId == mi.getId

/-- `mutex_lock::depends(const mutex_lock*)`. -/
def MutexLock.dependsMutexLock (self ml : Transition) : Bool := self.getId == ml.getId

/-- `condition_variable_wait::depends(const condition_variable_init*)`. -/
def ConditionVariableWait.dependsConditionVariableInit (self ci : Transition) : Bool :=
  self.getId == ci.getId

/-- `condition_variable_wait::depends(const mutex_lock*)`. -/
def ConditionVariableWait.dependsMutexLock (self ml : Transition) : Bool :=
  self.mutexId == ml.getId

/-- `condition_variable_signal::depends(const condition_variable_wait*)`. -/
def ConditionVariableSignal.dependsConditionVariableWait (self cw : Transition) : Bool :=
  self.getId == cw.getId

/-- `condition_variable_signal::depends(const mutex_lock*)`: the condition variable is
compared with the mutex. -/
def ConditionVariableSignal.dependsMutexLock (self ml : Transition) : Bool :=
  self.getId == ml.getId

/-- `thread_create::coenabled_with`. -/
def ThreadCreate.coenabledWith (self t : Transition) : Bool := self.target != some t.executor

/-- `thread_join::coenabled_with`. -/
def ThreadJoin.coenabledWith (self t : Transition) : Bool := self.target != some t.executor

/-- `mutex_lock::coenabled_with(const mutex_unlock*)`. -/
def MutexLock.coenabledWithMutexUnlock (self mu : Transition) : Bool := self.getId != mu.getId

/-- `condition_variable_signal::coenabled_with(const condition_variable_wait*)`. -/
def ConditionVariableSignal.coenabledWithConditionVariableWait (self cw : Transition) : Bool :=
  self.getId != cw.getId

/-- `condition_variable_signal::coenabled_with(const mutex_unlock*)`: the condition
variable is compared with the mutex. -/
def ConditionVariableSignal.coenabledWithMutexUnlock (self mu : Transition) : Bool :=
  self.getId != mu.getId

/-- `condition_variable_broadcast::coenabled_with(const condition_variable_wait*)`. -/
def ConditionVariableBroadcast.coenabledWithConditionVariableWait (_self _cw : Transition) :
    Bool :=
  true

/-- `condition_variable_broadcast::coenabled_with(const mutex_unlock*)`. -/
def ConditionVariableBroadcast.coenabledWithMutexUnlock (_self _mu : Transition) : Bool := true

/-- `condition_variable_destroy::coenabled_with(const condition_variable_wait*)`. -/
def ConditionVariableDestroy.coenabledWithConditionVariableWait (self cw : Transition) : Bool :=
  self.getId != cw.getId

/-- `condition_variable_destroy::coenabled_with(const condition_variable_signal*)`. -/
def ConditionVariableDestroy.coenabledWithConditionVariableSignal (self cs : Transition) :
    Bool :=
  self.getId != cs.getId

/-! ### The default relations -/

def defaultDependencies : DispatchTable :=
  (({} : DispatchTable)
    |>.registerInterfaceEntry .threadCreate ThreadCreate.depends
    |>.registerInterfaceEntry .threadJoin ThreadJoin.depends
    |>.registerEntry .mutexLock .mutexInit MutexLock.dependsMutexInit
    |>.registerEntry .mutexLock .mutexLock MutexLock.dependsMutexLock
    |>.registerEntry .conditionVariableWait .conditionVariableInit
        ConditionVariableWait.dependsConditionVariableInit
    |>.registerEntry .conditionVariableWait .mutexLock ConditionVariableWait.dependsMutexLock
    |>.registerEntry .conditionVariableSignal .conditionVariableWait
        ConditionVariableSignal.dependsConditionVariableWait
    |>.registerEntry .conditionVariableSignal .mutexLock ConditionVariableSignal.dependsMutexLock)

def defaultCoenabledness : DispatchTable :=
  (({} : DispatchTable)
    |>.registerInterfaceEntry .threadCreate ThreadCreate.coenabledWith
    |>.registerInterfaceEntry .threadJoin ThreadJoin.coenabledWith
    |>.registerEntry .mutexLock .mutexUnlock MutexLock.coenabledWithMutexUnlock
    |>.registerEntry .conditionVariableSignal .conditionVariableWait
        ConditionVariableSignal.coenabledWithConditionVariableWait
    |>.registerEntry .conditionVariableSignal .mutexUnlock
        ConditionVariableSignal.coenabledWithMutexUnlock
    |>.registerEntry .conditionVariableBroadcast .conditionVariableWait
        ConditionVariableBroadcast.coenabledWithConditionVariableWait
    |>.registerEntry .conditionVariableBroadcast .mutexUnlock
        ConditionVariableBroadcast.coenabledWithMutexUnlock
    |>.registerEntry .conditionVariableDestroy .conditionVariableWait
        ConditionVariableDestroy.coenabledWithConditionVariableWait
    |>.registerEntry .conditionVariableDestroy .conditionVariableSignal
        ConditionVariableDestroy.coenabledWithConditionVariableSignal)

/-- `classic_dpor::are_dependent`: transitions of one runner always are; otherwise the
relation decides, and transitions it does not cover are dependent. -/
def areDependent (dependencyRelation : DispatchTable) (t₁ t₂ : Transition) : Bool :=
  t₁.executor == t₂.executor || dependencyRelation.callOr true t₁ t₂

/-- `classic_dpor::are_coenabled`: transitions of one runner never are. -/
def areCoenabled (coenabledRelation : DispatchTable) (t₁ t₂ : Transition) : Bool :=
  t₁.executor != t₂.executor && coenabledRelation.callOr true t₁ t₂

/-! ### What the tables amount to -/

/-- The dependency table, read as a function of the two transitions. -/
theorem callOr_defaultDependencies (t₁ t₂ : Transition) :
    defaultDependencies.callOr true t₁ t₂ =
      match t₁.op, t₂.op with
      | .mutexLock m, .mutexInit m' | .mutexInit m', .mutexLock m
      | .mutexLock m', .mutexLock m => m == m'
      | .conditionVariableWait c _, .conditionVariableInit c'
      | .conditionVariableInit c', .conditionVariableWait c _ => c == c'
      | .conditionVariableWait _ m, .mutexLock m'
      | .mutexLock m', .conditionVariableWait _ m => m == m'
      | .conditionVariableSignal c, .conditionVariableWait c' _
      | .conditionVariableWait c' _, .conditionVariableSignal c => c == c'
      | .conditionVariableSignal c, .mutexLock m
      | .mutexLock m, .conditionVariableSignal c => c == m
      -- a class with a row which has no entry for the other class
      | .mutexLock _, _ | .mutexInit _, _ | .conditionVariableWait _ _, _
      | .conditionVariableInit _, _ | .conditionVariableSignal _, _ => true
      | .threadCreate b, _ | .threadJoin b, _ => b == t₂.executor
      | _, .threadCreate b | _, .threadJoin b => b == t₁.executor
      | _, _ => true := by
  obtain ⟨p, op₁⟩ := t₁
  obtain ⟨q, op₂⟩ := t₂
  cases op₁ <;> cases op₂ <;> rfl

/-- The co-enabledness table, read as a function of the two transitions. -/
theorem callOr_defaultCoenabledness (t₁ t₂ : Transition) :
    defaultCoenabledness.callOr true t₁ t₂ =
      match t₁.op, t₂.op with
      | .mutexLock m, .mutexUnlock m' | .mutexUnlock m', .mutexLock m => m != m'
      | .conditionVariableSignal c, .conditionVariableWait c' _
      | .conditionVariableWait c' _, .conditionVariableSignal c => c != c'
      | .conditionVariableSignal c, .mutexUnlock m
      | .mutexUnlock m, .conditionVariableSignal c => c != m
      | .conditionVariableDestroy c, .conditionVariableWait c' _
      | .conditionVariableWait c' _, .conditionVariableDestroy c => c != c'
      | .conditionVariableDestroy c, .conditionVariableSignal c'
      | .conditionVariableSignal c', .conditionVariableDestroy c => c != c'
      -- a class with a row which has no entry for the other class, or the entry `true`
      | .mutexLock _, _ | .mutexUnlock _, _ | .conditionVariableSignal _, _
      | .conditionVariableWait _ _, _ | .conditionVariableBroadcast _, _
      | .conditionVariableDestroy _, _ => true
      | .threadCreate b, _ | .threadJoin b, _ => b != t₂.executor
      | _, .threadCreate b | _, .threadJoin b => b != t₁.executor
      | _, _ => true := by
  obtain ⟨p, op₁⟩ := t₁
  obtain ⟨q, op₂⟩ := t₂
  cases op₁ <;> cases op₂ <;> rfl

end McMini
