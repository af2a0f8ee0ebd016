import McMini.Foundation.Footprint
import McMini.Model.Execution

/-!
# What a transition reads and writes

The objects a transition depends on are those it names, the object of its executor, and
the object of the thread it creates or joins. It changes only objects it names, the
created thread and, if it exits, its executor (`footprint_fire`).

An operation names each object at a type, and is enabled only where the objects have
those types (`Step.wellTyped`). No step changes the type of an object (`Step.objectType_eq`).
-/

namespace McMini

open Foundation

/-! ### Operands -/

namespace Operation

/-- The objects an operation names, with the types at which it uses them. -/
def operands : Operation → List (ObjId × ObjectType)
  | mutexInit m | mutexLock m | mutexUnlock m => [(m, .mutex)]
  | conditionVariableInit c | conditionVariableSignal c | conditionVariableBroadcast c
  | conditionVariableDestroy c => [(c, .conditionVariable)]
  | conditionVariableEnqueueThread c m | conditionVariableWait c m =>
    [(c, .conditionVariable), (m, .mutex)]
  | semInit i _ | semPost i | semWait i => [(i, .semaphore)]
  | threadCreate _ | threadStart | threadJoin _ | threadExit | processExit _ | processAbort => []

/-- The runner an operation creates. -/
def created : Operation → Option RunnerId
  | threadCreate target => some target
  | _ => none

/-- The runner an operation creates or joins. -/
def target : Operation → Option RunnerId
  | threadCreate target | threadJoin target => some target
  | _ => none

/-- The operation ends its executor. -/
def exits : Operation → Bool
  | threadExit | processExit _ => true
  | _ => false

theorem target_of_created {op : Operation} {b : RunnerId} (h : op.created = some b) :
    op.target = some b := by
  cases op <;> simp_all [created, target]

theorem created_eq_some {op : Operation} {b : RunnerId} :
    op.created = some b ↔ op = .threadCreate b := by
  cases op <;> simp [created]

theorem target_eq_some {op : Operation} {b : RunnerId} :
    op.target = some b ↔ op = .threadCreate b ∨ op = .threadJoin b := by
  cases op <;> simp [target]

/-- No operation uses a thread as one of its operands. -/
theorem operand_ne_thread {op : Operation} {i : ObjId} {ty : ObjectType}
    (h : (i, ty) ∈ op.operands) : ty ≠ .thread := by
  cases op <;> simp_all [operands] <;> rcases h with h | h <;> simp [h]

end Operation

/-- The runner has an object, which is a thread. -/
def State.IsRunner (s : State) (p : RunnerId) : Prop :=
  ∃ i, s.objidForRunner p = some i ∧
    (s.objectState i).map VisibleObjectState.objectType = some .thread

/-- The operands of the transition are objects of the types it uses them at, and the
runners it involves are there. -/
structure WellTyped (s : State) (t : Transition) : Prop where
  operand : ∀ {i ty}, (i, ty) ∈ t.op.operands →
    (s.objectState i).map VisibleObjectState.objectType = some ty
  executor : s.IsRunner t.executor
  target : ∀ {b}, t.op.target = some b → s.IsRunner b

namespace Transition

/-- The objects a transition depends on, where `obj` gives the objects of the runners. -/
def reads (obj : RunnerId → Option ObjId) (t : Transition) : Set ObjId :=
  { i | (∃ ty, (i, ty) ∈ t.op.operands) ∨ obj t.executor = some i ∨
    ∃ b, t.op.target = some b ∧ obj b = some i }

/-- The objects a transition may change. -/
def writes (obj : RunnerId → Option ObjId) (t : Transition) : Set ObjId :=
  { i | (∃ ty, (i, ty) ∈ t.op.operands) ∨ (t.op.exits = true ∧ obj t.executor = some i) ∨
    ∃ b, t.op.created = some b ∧ obj b = some i }

variable {obj : RunnerId → Option ObjId} {t : Transition} {i : ObjId}

theorem writes_subset_reads : t.writes obj ⊆ t.reads obj := by
  rintro i (h | ⟨-, h⟩ | ⟨b, hb, h⟩)
  · exact .inl h
  · exact .inr (.inl h)
  · exact .inr (.inr ⟨b, Operation.target_of_created hb, h⟩)

end Transition

/-! ### Types are kept -/

variable {s s' u : State} {t : Transition} {i j : ObjId} {p : RunnerId}
  {o old : VisibleObjectState}

theorem State.setObjectState_objectType (hj : s.objectState j = some old)
    (htype : old.objectType = o.objectType) :
    ((s.setObjectState j o).objectState i).map VisibleObjectState.objectType =
      (s.objectState i).map VisibleObjectState.objectType := by
  by_cases hij : i = j
  · subst hij
    simp [hj, htype]
  · rw [State.setObjectState_of_ne hij]

theorem State.setThread_objectType {t₀ t : Thread} (h : s.HasThread p t₀) :
    ((s.setThread p t).objectState i).map VisibleObjectState.objectType =
      (s.objectState i).map VisibleObjectState.objectType := by
  obtain ⟨j, -, hj, heq⟩ := State.setThread_eq (t := t) h
  rw [heq]
  exact State.setObjectState_objectType hj (by rfl)

/-- A step changes the state of an object, never its type. -/
theorem Step.objectType_eq (h : Step s t s') (i : ObjId) :
    (s'.objectState i).map VisibleObjectState.objectType =
      (s.objectState i).map VisibleObjectState.objectType := by
  cases h with
  | mutexInit ha hd | mutexLock ha hd hfree | mutexUnlock ha hd hheld
  | conditionVariableInit ha hd | conditionVariableSignal ha hd hu hw
  | conditionVariableBroadcast ha hd hu hw | conditionVariableDestroy ha hd hu hw
  | semInit ha hd | semPost ha hd | semWait ha hd hblock =>
    exact State.setObjectState_objectType hd rfl
  | conditionVariableEnqueueThread ha hcv hm hheld =>
    refine Eq.trans (State.setObjectState_objectType (i := i)
      (State.setObjectState_of_type_ne hcv hm (by simp)) (by rfl)) ?_
    exact State.setObjectState_objectType hcv (by rfl)
  | conditionVariableWait ha hcv hm hu hexit hloc hfree hnew =>
    refine Eq.trans (State.setObjectState_objectType (i := i)
      (State.setObjectState_of_type_ne hm hcv (by simp)) (by rfl)) ?_
    exact State.setObjectState_objectType hm (by rfl)
  | threadCreate ha ht => exact State.setThread_objectType ht
  | threadExit ha hmain | processExit ha => exact State.setThread_objectType ha
  | conditionVariableSignalLost ha hcv hu hw | conditionVariableBroadcastLost ha hcv hu hw
  | threadStart ha | threadJoin ha ht | processAbort ha => rfl

theorem State.HasThread.isRunner {th : Thread} (h : s.HasThread p th) : s.IsRunner p := by
  obtain ⟨i, hi, hth⟩ := h
  exact ⟨i, hi, by simp [hth]⟩

/-- An enabled transition uses its operands at their types. -/
theorem Step.wellTyped (h : Step s t s') : WellTyped s t where
  operand {i ty} hi := by
    cases h with
    | mutexInit ha hd | mutexLock ha hd hfree | mutexUnlock ha hd hheld
    | conditionVariableInit ha hd | conditionVariableSignal ha hd hu hw
    | conditionVariableBroadcast ha hd hu hw | conditionVariableDestroy ha hd hu hw
    | conditionVariableSignalLost ha hd hu hw | conditionVariableBroadcastLost ha hd hu hw
    | semInit ha hd | semPost ha hd | semWait ha hd hblock =>
      obtain ⟨rfl, rfl⟩ : i = _ ∧ ty = _ := by simpa [Operation.operands] using hi
      simp [hd]
    | conditionVariableEnqueueThread ha hcv hm hheld
    | conditionVariableWait ha hcv hm hu hexit hloc hfree hnew =>
      obtain ⟨rfl, rfl⟩ | ⟨rfl, rfl⟩ : (i = _ ∧ ty = _) ∨ (i = _ ∧ ty = _) := by
        simpa [Operation.operands] using hi
      · simp [hcv]
      · simp [hm]
    | threadCreate ha ht => simp [Operation.operands] at hi
    | threadExit ha hmain | processExit ha | threadStart ha | threadJoin ha ht
    | processAbort ha => simp [Operation.operands] at hi
  executor := h.active.isRunner
  target {b} hb := by
    cases h with
    | threadCreate ha ht | threadJoin ha ht =>
      obtain rfl : _ = b := by simpa [Operation.target] using hb
      exact ht.isRunner
    | _ => simp [Operation.target] at hb

theorem Step.objidForRunner_eq (h : Step s t s') : s'.objidForRunner = s.objidForRunner := by
  cases h <;> simp

/-- Steps of others do not make a transition well-typed, nor ill-typed. -/
theorem Step.wellTyped_iff {t' : Transition} (h : Step s t' s') :
    WellTyped s' t ↔ WellTyped s t := by
  have hrunner : ∀ {q}, s'.IsRunner q ↔ s.IsRunner q := by
    intro q
    simp only [State.IsRunner, h.objidForRunner_eq, h.objectType_eq]
  constructor
  · rintro ⟨hop, hex, htgt⟩
    exact ⟨fun hi => (h.objectType_eq _).symm.trans (hop hi), hrunner.mp hex,
      fun hb => hrunner.mp (htgt hb)⟩
  · rintro ⟨hop, hex, htgt⟩
    exact ⟨fun hi => (h.objectType_eq _).trans (hop hi), hrunner.mpr hex,
      fun hb => hrunner.mpr (htgt hb)⟩

/-! ### The footprint of a transition -/

private theorem setObjectState_agree (h : u.objectState i = s.objectState i) :
    (u.setObjectState j o).objectState i = (s.setObjectState j o).objectState i := by
  simp only [State.setObjectState_objectState, h]

private theorem setThread_agree {th : Thread} (hobj : u.objidForRunner = s.objidForRunner)
    (h : u.objectState i = s.objectState i) :
    (u.setThread p th).objectState i = (s.setThread p th).objectState i := by
  unfold State.setThread
  rw [hobj]
  cases s.objidForRunner p with
  | none => exact h
  | some j => exact setObjectState_agree h

private theorem hasThread_agree {th : Thread} (hobj : u.objidForRunner = s.objidForRunner)
    (h : ∀ i, s.objidForRunner p = some i → u.objectState i = s.objectState i)
    (hp : s.HasThread p th) : u.HasThread p th := by
  obtain ⟨i, hi, hth⟩ := hp
  exact ⟨i, hobj ▸ hi, (h i hi).trans hth⟩

private theorem setThread_frame {th : Thread} (hi : s.objidForRunner p ≠ some i) :
    (s.setThread p th).objectState i = s.objectState i := by
  unfold State.setThread
  cases hp : s.objidForRunner p with
  | none => rfl
  | some j => exact State.setObjectState_of_ne fun hij => hi (hp.trans (congrArg some hij.symm))

/-- A step leaves the objects it does not write alone. -/
theorem Step.frame (h : Step s t s') (hi : i ∉ t.writes s.objidForRunner) :
    s'.objectState i = s.objectState i := by
  have hne : ∀ {j} ty, (j, ty) ∈ t.op.operands → i ≠ j := by
    rintro j ty hj rfl
    exact hi (.inl ⟨ty, hj⟩)
  cases h with
  | mutexInit ha hd | mutexLock ha hd hfree | mutexUnlock ha hd hheld
  | conditionVariableInit ha hd | conditionVariableSignal ha hd hu hw
  | conditionVariableBroadcast ha hd hu hw | conditionVariableDestroy ha hd hu hw
  | semInit ha hd | semPost ha hd | semWait ha hd hblock =>
    exact State.setObjectState_of_ne (hne _ (List.mem_singleton.mpr rfl))
  | conditionVariableEnqueueThread ha hcv hm hheld =>
    rw [State.setObjectState_of_ne (hne .mutex (by simp [Operation.operands])),
      State.setObjectState_of_ne (hne .conditionVariable (by simp [Operation.operands]))]
  | conditionVariableWait ha hcv hm hu hexit hloc hfree hnew =>
    rw [State.setObjectState_of_ne (hne .conditionVariable (by simp [Operation.operands])),
      State.setObjectState_of_ne (hne .mutex (by simp [Operation.operands]))]
  | threadCreate ha ht => exact setThread_frame fun h => hi (.inr (.inr ⟨_, rfl, h⟩))
  | threadExit ha hmain | processExit ha => exact setThread_frame fun h => hi (.inr (.inl ⟨rfl, h⟩))
  | conditionVariableSignalLost ha hcv hu hw | conditionVariableBroadcastLost ha hcv hu hw
  | threadStart ha | threadJoin ha ht | processAbort ha => rfl

/-- A step which is possible in `s` is possible wherever the objects it reads are the
same, and writes the same there. -/
theorem Step.transfer (h : Step s t s') (hobj : u.objidForRunner = s.objidForRunner)
    (hread : ∀ i ∈ t.reads s.objidForRunner, u.objectState i = s.objectState i) :
    ∃ u', Step u t u' ∧ ∀ i ∈ t.writes s.objidForRunner, u'.objectState i = s'.objectState i := by
  have hwrite := fun i hi => hread i (Transition.writes_subset_reads hi)
  -- all that a rule asks for is about operands, the executor and the target, which are read
  have hoperand : ∀ {j o} ty, (j, ty) ∈ t.op.operands → s.objectState j = some o →
      u.objectState j = some o := fun ty hj ho => (hread _ (.inl ⟨ty, hj⟩)).trans ho
  have hactive : s.Active t.executor → u.Active t.executor :=
    hasThread_agree hobj fun i hi => hread i (.inr (.inl hi))
  have htarget : ∀ {b th}, t.op.target = some b → s.HasThread b th → u.HasThread b th :=
    fun hb => hasThread_agree hobj fun i hi => hread i (.inr (.inr ⟨_, hb, hi⟩))
  cases h with
  | mutexInit ha hd =>
    exact ⟨_, .mutexInit (hactive ha) (hoperand _ (List.mem_singleton.mpr rfl) hd),
      fun i hi => setObjectState_agree (hwrite i hi)⟩
  | mutexLock ha hd hfree =>
    exact ⟨_, .mutexLock (hactive ha) (hoperand _ (List.mem_singleton.mpr rfl) hd) hfree,
      fun i hi => setObjectState_agree (hwrite i hi)⟩
  | mutexUnlock ha hd hheld =>
    exact ⟨_, .mutexUnlock (hactive ha) (hoperand _ (List.mem_singleton.mpr rfl) hd) hheld,
      fun i hi => setObjectState_agree (hwrite i hi)⟩
  | conditionVariableInit ha hd =>
    exact ⟨_, .conditionVariableInit (hactive ha) (hoperand _ (List.mem_singleton.mpr rfl) hd),
      fun i hi => setObjectState_agree (hwrite i hi)⟩
  | conditionVariableEnqueueThread ha hcv hm hheld =>
    exact ⟨_, .conditionVariableEnqueueThread (hactive ha)
      (hoperand .conditionVariable (by simp [Operation.operands]) hcv)
      (hoperand .mutex (by simp [Operation.operands]) hm) hheld,
      fun i hi => setObjectState_agree (setObjectState_agree (hwrite i hi))⟩
  | conditionVariableWait ha hcv hm hu hexit hloc hfree hnew =>
    exact ⟨_, .conditionVariableWait (hactive ha)
      (hoperand .conditionVariable (by simp [Operation.operands]) hcv)
      (hoperand .mutex (by simp [Operation.operands]) hm) hu hexit hloc hfree hnew,
      fun i hi => setObjectState_agree (setObjectState_agree (hwrite i hi))⟩
  | conditionVariableSignalLost ha hd hu hw =>
    exact ⟨_, .conditionVariableSignalLost (hactive ha)
      (hoperand _ (List.mem_singleton.mpr rfl) hd) hu hw, hwrite⟩
  | conditionVariableSignal ha hd hu hw =>
    exact ⟨_, .conditionVariableSignal (hactive ha)
      (hoperand _ (List.mem_singleton.mpr rfl) hd) hu hw,
      fun i hi => setObjectState_agree (hwrite i hi)⟩
  | conditionVariableBroadcastLost ha hd hu hw =>
    exact ⟨_, .conditionVariableBroadcastLost (hactive ha)
      (hoperand _ (List.mem_singleton.mpr rfl) hd) hu hw, hwrite⟩
  | conditionVariableBroadcast ha hd hu hw =>
    exact ⟨_, .conditionVariableBroadcast (hactive ha)
      (hoperand _ (List.mem_singleton.mpr rfl) hd) hu hw,
      fun i hi => setObjectState_agree (hwrite i hi)⟩
  | conditionVariableDestroy ha hd hu hw =>
    exact ⟨_, .conditionVariableDestroy (hactive ha)
      (hoperand _ (List.mem_singleton.mpr rfl) hd) hu hw,
      fun i hi => setObjectState_agree (hwrite i hi)⟩
  | semInit ha hd =>
    exact ⟨_, .semInit (hactive ha) (hoperand _ (List.mem_singleton.mpr rfl) hd),
      fun i hi => setObjectState_agree (hwrite i hi)⟩
  | semPost ha hd =>
    exact ⟨_, .semPost (hactive ha) (hoperand _ (List.mem_singleton.mpr rfl) hd),
      fun i hi => setObjectState_agree (hwrite i hi)⟩
  | semWait ha hd hblock =>
    exact ⟨_, .semWait (hactive ha) (hoperand _ (List.mem_singleton.mpr rfl) hd) hblock,
      fun i hi => setObjectState_agree (hwrite i hi)⟩
  | threadCreate ha ht =>
    exact ⟨_, .threadCreate (hactive ha) (htarget rfl ht),
      fun i hi => setThread_agree hobj (hwrite i hi)⟩
  | threadStart ha => exact ⟨_, .threadStart (hactive ha), hwrite⟩
  | threadJoin ha ht => exact ⟨_, .threadJoin (hactive ha) (htarget rfl ht), hwrite⟩
  | threadExit ha hmain =>
    exact ⟨_, .threadExit (hactive ha) hmain, fun i hi => setThread_agree hobj (hwrite i hi)⟩
  | processExit ha =>
    exact ⟨_, .processExit (hactive ha), fun i hi => setThread_agree hobj (hwrite i hi)⟩
  | processAbort ha => exact ⟨_, .processAbort (hactive ha), hwrite⟩

/-- The footprint of firing a transition. -/
theorem footprint_fire (t : Transition) (obj : RunnerId → Option ObjId) :
    Footprint State.objectState State.objidForRunner (fire t) obj (t.reads obj)
      (t.writes obj) where
  ctx_eq := by
    rintro s s' rfl h
    exact (fire_eq_some_iff_step.mp h).objidForRunner_eq
  frame := by
    rintro s s' rfl h i hi
    exact (fire_eq_some_iff_step.mp h).frame hi
  transfer := by
    rintro s s' u rfl hu hread h
    obtain ⟨u', hu', hwrites⟩ := (fire_eq_some_iff_step.mp h).transfer hu hread
    exact ⟨u', fire_eq_some_iff_step.mpr hu', hwrites⟩

/-- What one transition writes another does not read, if the two name different objects
and no thread which the first creates or ends takes part in the second. -/
theorem disjoint_writes_reads {t' : Transition} (ht : WellTyped s t) (ht' : WellTyped s t')
    (hoperands : ∀ {i ty ty'}, (i, ty) ∈ t.op.operands → (i, ty') ∉ t'.op.operands)
    (hne : t.executor ≠ t'.executor)
    (hexits : t.op.exits = true → t'.op.target ≠ some t.executor)
    (hcreated : ∀ {b}, t.op.created = some b → b ≠ t'.executor ∧ t'.op.target ≠ some b) :
    Disjoint (t.writes s.objidForRunner) (t'.reads s.objidForRunner) := by
  -- an operand is not the object of a runner
  have hrunner : ∀ {u : Transition} {i ty q}, WellTyped s u → (i, ty) ∈ u.op.operands →
      s.IsRunner q → s.objidForRunner q ≠ some i := by
    rintro u i ty q hu hi ⟨j, hj, htype⟩ hq
    obtain rfl : j = i := Option.some.inj (hj.symm.trans hq)
    exact Operation.operand_ne_thread hi (Option.some.inj ((hu.operand hi).symm.trans htype))
  rw [Set.disjoint_left]
  rintro i (⟨ty, hi⟩ | ⟨hex, hi⟩ | ⟨b, hb, hi⟩) (⟨ty', hi'⟩ | hi' | ⟨b', hb', hi'⟩)
  · exact hoperands hi hi'
  · exact hrunner ht hi ht'.executor hi'
  · exact hrunner ht hi (ht'.target hb') hi'
  · exact hrunner ht' hi' ht.executor hi
  · exact hne (s.objidForRunner_injective hi hi')
  · exact hexits hex (s.objidForRunner_injective hi hi' ▸ hb')
  · exact hrunner ht' hi' (ht.target (Operation.target_of_created hb)) hi
  · exact (hcreated hb).1 (s.objidForRunner_injective hi hi')
  · exact (hcreated hb).2 (s.objidForRunner_injective hi hi' ▸ hb')

end McMini
