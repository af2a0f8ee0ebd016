import McMini.Properties.RunnerIds

/-!
# Addresses of the target

The coordinator maps the addresses of the target to the objects of the model. Callbacks add to the
map and take nothing away, and executing a transition changes the states of the objects only. So an
address which is known keeps its object, and different addresses have different ones.

An address whose object has the id `objidInvalid` counts as unknown, and keeps this id. The
statements on adding objects therefore assume that the model has no object with this id yet.

`Mapped` is what the coordinator keeps, and `Mapped.executeStep` what executing a runner does.
-/

namespace McMini.Coordinator

open Foundation

/-- What the model of `c` has, the one of `c'` has too. -/
structure Keeps (c c' : Coordinator) : Prop where
  settled : c'.getStateSequence.Settled
  objects : c.getStateSequence.visibleObjects <+: c'.getStateSequence.visibleObjects
  runners : ∀ p i, c.getStateSequence.runnerToObjMap.lookup p = some i →
    c'.getStateSequence.runnerToObjMap.lookup p = some i
  addresses : ∀ a i, c.systemAddressMapping.lookup a = some i →
    c'.systemAddressMapping.lookup a = some i

section Keeps

variable {c c' c'' : Coordinator}

theorem Keeps.refl (h : c.getStateSequence.Settled) : Keeps c c :=
  ⟨h, List.prefix_rfl, fun _ _ => id, fun _ _ => id⟩

theorem Keeps.trans (h : Keeps c c') (h' : Keeps c' c'') : Keeps c c'' :=
  ⟨h'.settled, h.objects.trans h'.objects, fun p i hi => h'.runners p i (h.runners p i hi),
    fun a i hi => h'.addresses a i (h.addresses a i hi)⟩

/-- An address keeps its object. -/
theorem lookup_insertAddress {handle a : Addr} {i j : ObjId}
    (hi : c.systemAddressMapping.lookup a = some i) :
    (c.insertAddress handle j).lookup a = some i := by
  rw [insertAddress]
  split_ifs with hnone
  · have hne : handle ≠ a := by
      rintro rfl
      exact Option.some_ne_none i (hi.symm.trans hnone)
    rw [lookup_insert, if_neg hne, hi]
  · exact hi

/-- A callback takes nothing away from the model. -/
theorem keeps_of_adds (h : c.getStateSequence.Settled) (hadds : Adds c c') : Keeps c c' := by
  cases hadds with
  | nothing => exact .refl h
  | object hnew =>
    exact ⟨h.addObject _, List.prefix_append _ _, fun _ _ => id,
      fun _ _ hi => lookup_insertAddress hi⟩
  | @runner handle hnew =>
    obtain ⟨s', hadds, hrun⟩ := observeRunner_run h hnew ⟨.embryo⟩ fun id => ⟨id, .threadStart⟩
    rw [hrun]
    refine ⟨hadds.settled, ?_, fun p i hi => hadds.lookup_of_some h hi,
      fun _ _ hi => lookup_insertAddress hi⟩
    show _ <+: s'.visibleObjects
    rw [hadds.objects]
    exact List.prefix_append _ _

/-- The objects which were there are in the same states. -/
theorem Keeps.objectState (h : Keeps c c') (hs : c.getStateSequence.Settled) {i : ObjId}
    {o : VisibleObjectState} (ho : c.getStateSequence.toState.objectState i = some o) :
    c'.getStateSequence.toState.objectState i = some o := by
  rw [hs.current.objectState] at ho
  rw [h.settled.current.objectState]
  obtain ⟨v, hv, rfl⟩ := Option.map_eq_some_iff.mp ho
  obtain ⟨rest, hrest⟩ := h.objects
  have hlt : i < c.getStateSequence.visibleObjects.length := (List.getElem?_eq_some_iff.mp hv).1
  rw [← hrest, List.getElem?_append_left hlt, hv]
  rfl

/-- The runners which were there have the same objects. -/
theorem Keeps.objidForRunner (h : Keeps c c') (hs : c.getStateSequence.Settled) {p : RunnerId}
    {i : ObjId} (hi : c.getStateSequence.runnerToObjMap.lookup p = some i) :
    c'.getStateSequence.toState.objidForRunner p = c.getStateSequence.toState.objidForRunner p :=
  (h.settled.getObjidForRunnerAt (h.runners p i hi)).trans (hs.getObjidForRunnerAt hi).symm

end Keeps

/-! ### Different addresses -/

/-- Different addresses have different objects, which are there, and only runners which are there
have something pending. -/
structure Mapped (c : Coordinator) : Prop where
  settled : c.getStateSequence.Settled
  lookup_lt : ∀ a i, c.systemAddressMapping.lookup a = some i →
    i < c.getStateSequence.visibleObjects.length
  injective : ∀ a b i, c.systemAddressMapping.lookup a = some i →
    c.systemAddressMapping.lookup b = some i → a = b
  pending_lt : ∀ p t, c.currentProgramModel.nextSteps.lookup p = some t →
    p < c.getStateSequence.runnerToObjMap.size

section Mapped

variable {c c' c₁ : Coordinator} {a handle : Addr} {o : VisibleObjectState} {p q : RunnerId}
  {t : Transition} {i : ObjId}

theorem Mapped.afterProcess (h : Mapped c) (p : RunnerId) : Mapped (c.afterProcess p) :=
  ⟨h.settled, h.lookup_lt, h.injective, h.pending_lt⟩

/-- A known address is that of its object. -/
theorem lookup_getModelOfObject (h : c.contains a = true) :
    c.systemAddressMapping.lookup a = some (c.getModelOfObject a) := by
  rw [Coordinator.contains, bne_iff_ne, Coordinator.getModelOfObject] at h
  rw [Coordinator.getModelOfObject]
  rcases hlookup : c.systemAddressMapping.lookup a with _ | i
  · rw [hlookup] at h
    exact absurd rfl h
  · rfl

/-- Known addresses are those which are mapped. -/
theorem Mapped.contains_iff (h : Mapped c)
    (hlength : c.getStateSequence.visibleObjects.length ≤ objidInvalid) :
    c.contains a = true ↔ ∃ i, c.systemAddressMapping.lookup a = some i := by
  rw [Coordinator.contains, bne_iff_ne, Coordinator.getModelOfObject]
  constructor
  · intro hne
    rcases hlookup : c.systemAddressMapping.lookup a with _ | i
    · rw [hlookup] at hne
      exact absurd rfl hne
    · exact ⟨i, rfl⟩
  · rintro ⟨i, hi⟩
    rw [hi]
    exact ((h.lookup_lt a i hi).trans_le hlength).ne

theorem Mapped.lookup_eq_none (h : Mapped c)
    (hlength : c.getStateSequence.visibleObjects.length ≤ objidInvalid)
    (hnew : c.contains a = false) : c.systemAddressMapping.lookup a = none := by
  rcases hlookup : c.systemAddressMapping.lookup a with _ | i
  · rfl
  · have hcontains := (h.contains_iff hlength).mpr ⟨i, hlookup⟩
    rw [hnew] at hcontains
    cases hcontains

/-- The object at a known address is found there as long as the model keeps it. -/
theorem Keeps.objectAt (h : Keeps c c') (hm : Mapped c) (ho : c.objectAt a = some o) :
    c'.objectAt a = some o := by
  obtain ⟨i, hi, ho⟩ := Option.bind_eq_some_iff.mp ho
  rw [Coordinator.objectAt, h.addresses a i hi, Option.bind_some]
  exact h.objectState hm.settled ho

/-- Adding an object at an address which is not known. -/
theorem Mapped.insert (h : Mapped c)
    (hlength : c.getStateSequence.visibleObjects.length ≤ objidInvalid)
    (hnew : c.contains handle = false) (hsettled : c'.getStateSequence.Settled)
    (hobjects : c'.getStateSequence.visibleObjects.length =
      c.getStateSequence.visibleObjects.length + 1)
    (hmapping : c'.systemAddressMapping = c.insertAddress handle
      c.getStateSequence.visibleObjects.length)
    (hpending : ∀ p t, c'.currentProgramModel.nextSteps.lookup p = some t →
      p < c'.getStateSequence.runnerToObjMap.size) : Mapped c' := by
  rw [insertAddress_of_unknown (h.lookup_eq_none hlength hnew)] at hmapping
  refine ⟨hsettled, fun a i hi => ?_, fun a b i hi hj => ?_, hpending⟩
  · rw [hmapping, lookup_insert] at hi
    rw [hobjects]
    split_ifs at hi
    · rw [← Option.some.inj hi]
      exact Nat.lt_succ_self _
    · exact (h.lookup_lt a i hi).trans (Nat.lt_succ_self _)
  · rw [hmapping, lookup_insert] at hi hj
    split_ifs at hi hj with ha hb hb
    · exact ha.symm.trans hb
    · exact absurd (h.lookup_lt b i hj) (Option.some.inj hi ▸ lt_irrefl _)
    · exact absurd (h.lookup_lt a i hi) (Option.some.inj hj ▸ lt_irrefl _)
    · exact h.injective a b i hi hj

theorem mapped_of_adds (h : Mapped c)
    (hlength : c.getStateSequence.visibleObjects.length ≤ objidInvalid) (hadds : Adds c c') :
    Mapped c' := by
  cases hadds with
  | nothing => exact h
  | object hnew =>
    exact h.insert hlength hnew (h.settled.addObject _) (by
      simp [Coordinator.observe, Coordinator.getStateSequence, Coordinator.setStateSeq,
        StateSequence.addObject]) rfl h.pending_lt
  | @runner handle hnew =>
    obtain ⟨s', hadds, hrun⟩ :=
      observeRunner_run h.settled hnew ⟨.embryo⟩ fun id => ⟨id, .threadStart⟩
    rw [hrun]
    refine h.insert hlength hnew hadds.settled ?_ rfl fun p t ht => ?_
    · show s'.visibleObjects.length = _
      rw [hadds.objects, List.length_append, List.length_singleton]
    · show p < s'.runnerToObjMap.size
      rw [hadds.size]
      change (c.currentProgramModel.nextSteps.insert _ _).lookup p = some t at ht
      rw [lookup_insert] at ht
      split_ifs at ht with hp
      · exact hp ▸ Nat.lt_succ_self _
      · exact (h.pending_lt p t ht).trans (Nat.lt_succ_self _)

/-- What a callback adds to the pending transitions is the start of a runner which is new. -/
theorem pending_of_adds (h : Mapped c) (hadds : Adds c c')
    (ht : c'.currentProgramModel.nextSteps.lookup p = some t) :
    c.currentProgramModel.nextSteps.lookup p = some t ∨
      c.currentProgramModel.nextSteps.lookup p = none ∧ t.op = .threadStart := by
  cases hadds with
  | nothing => exact .inl ht
  | object hnew => exact .inl ht
  | @runner handle hnew =>
    obtain ⟨s', hadds, hrun⟩ :=
      observeRunner_run h.settled hnew ⟨.embryo⟩ fun id => ⟨id, .threadStart⟩
    rw [hrun] at ht
    change (c.currentProgramModel.nextSteps.insert _ _).lookup p = some t at ht
    rw [lookup_insert] at ht
    split_ifs at ht with hp
    · refine .inr ⟨?_, by rw [← Option.some.inj ht]⟩
      rcases hnone : c.currentProgramModel.nextSteps.lookup p with _ | u
      · rfl
      · exact absurd (h.pending_lt p u hnone) (hp ▸ lt_irrefl _)
    · exact .inl ht

/-- And none is taken away. -/
theorem pending_adds (h : Mapped c) (hadds : Adds c c')
    (ht : c.currentProgramModel.nextSteps.lookup p = some t) :
    c'.currentProgramModel.nextSteps.lookup p = some t := by
  cases hadds with
  | nothing => exact ht
  | object hnew => exact ht
  | @runner handle hnew =>
    obtain ⟨s', hadds, hrun⟩ :=
      observeRunner_run h.settled hnew ⟨.embryo⟩ fun id => ⟨id, .threadStart⟩
    rw [hrun]
    change (c.currentProgramModel.nextSteps.insert _ _).lookup p = some t
    rw [lookup_insert, if_neg (h.pending_lt p t ht).ne', ht]

/-- Following a transition changes the states of the objects only. -/
theorem Mapped.follow (h : Mapped c₁) {next : Transition} {s' : StateSequence}
    (hnext : c₁.currentProgramModel.nextSteps.lookup p = some next)
    (hfollow : c₁.getStateSequence.follow next = (s', .ok .exists')) (t : Transition) :
    Mapped { c₁ with currentProgramModel := ⟨s', c₁.currentProgramModel.trace ++ [next],
      c₁.currentProgramModel.nextSteps.insert p t⟩ } := by
  obtain ⟨d, -, -, hs'⟩ := StateSequence.follow_eq_exists hfollow
  have hobjects : s'.visibleObjects.length = c₁.getStateSequence.visibleObjects.length := by
    rw [hs']
    exact StateSequence.pushNewStates_length _ _
  have hrunners : s'.runnerToObjMap = c₁.getStateSequence.runnerToObjMap := by
    rw [hs']
    rfl
  refine ⟨h.settled.follow hfollow, fun a i hi => ?_, h.injective, fun q u hu => ?_⟩
  · show i < s'.visibleObjects.length
    rw [hobjects]
    exact h.lookup_lt a i hi
  · show q < s'.runnerToObjMap.size
    rw [hrunners]
    change (c₁.currentProgramModel.nextSteps.insert p t).lookup q = some u at hu
    rw [lookup_insert] at hu
    split_ifs at hu with hq
    · exact hq ▸ h.pending_lt p next hnext
    · exact h.pending_lt q u hu

/-- **Executing a runner** which reports the contents: a callback translates them, and the model
then executes what was pending. -/
theorem Mapped.executeStep {contents : MailboxContents} (h : Mapped c)
    (hlength : c.getStateSequence.visibleObjects.length ≤ objidInvalid)
    (hstep : McMini.executeStep (fun _ _ => .ok contents) p c = some c') :
    ∃ c₁ next t, Keeps c c₁ ∧ Mapped c₁ ∧ Adds (c.afterProcess p) c₁ ∧
      (callback p contents).run (c.afterProcess p) = (.ok t, c₁) ∧
      c₁.currentProgramModel.nextSteps.lookup p = some next ∧
      Step c₁.getStateSequence.toState next c'.getStateSequence.toState ∧ Mapped c' ∧
      c'.systemAddressMapping = c₁.systemAddressMapping ∧
      c'.currentProgramModel.nextSteps = c₁.currentProgramModel.nextSteps.insert p t := by
  obtain ⟨_, t, c₁, next, s', hsource, hcallback, -, hnext, hfollow, rfl⟩ :=
    executeRunner_eq_ok (executeStep_eq_some_iff.mp hstep)
  obtain rfl := Except.ok.inj hsource
  have hadds : Adds (c.afterProcess p) c₁ := by
    have hadds := callback_adds p contents (c.afterProcess p)
    rwa [hcallback] at hadds
  have hmapped : Mapped c₁ := mapped_of_adds (h.afterProcess p) hlength hadds
  have hkeeps : Keeps (c.afterProcess p) c₁ := keeps_of_adds h.settled hadds
  refine ⟨c₁, next, t, ⟨hkeeps.settled, hkeeps.objects, hkeeps.runners, hkeeps.addresses⟩,
    hmapped, hadds, hcallback, hnext, ?_, hmapped.follow hnext hfollow t, rfl, rfl⟩
  exact fire_eq_some_iff_step.mp (hmapped.settled.current.follow hfollow).1

/-- Executing a runner takes no object away. -/
theorem objects_executeStep {source : ProcessSource} (h : c.getStateSequence.Settled)
    (hstep : McMini.executeStep source p c = some c') :
    c'.getStateSequence.Settled ∧ c.getStateSequence.visibleObjects.length ≤
      c'.getStateSequence.visibleObjects.length := by
  obtain ⟨contents, t, c₁, next, s', -, hcallback, -, -, hfollow, rfl⟩ :=
    executeRunner_eq_ok (executeStep_eq_some_iff.mp hstep)
  have hadds : Adds (c.afterProcess p) c₁ := by
    have hadds := callback_adds p contents (c.afterProcess p)
    rwa [hcallback] at hadds
  have hkeeps : Keeps (c.afterProcess p) c₁ := keeps_of_adds h hadds
  obtain ⟨d, -, -, hs'⟩ := StateSequence.follow_eq_exists hfollow
  refine ⟨hkeeps.settled.follow hfollow, hkeeps.objects.length_le.trans ?_⟩
  show _ ≤ s'.visibleObjects.length
  rw [hs']
  exact (StateSequence.pushNewStates_length _ _).ge

end Mapped

end McMini.Coordinator
