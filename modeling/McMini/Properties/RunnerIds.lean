import McMini.Properties.Exploration
import McMini.RealWorld.Threads

/-!
# The two numberings of threads

The library and the model number the threads of a branch independently, and the coordinator
executes a thread through the mailbox with the model's number. The numberings agree as long
as each new thread has a handle of its own (`runner_ids_agree`). A handle which was joined
may be given to a new thread, and the coordinator takes that one for the old.
-/

namespace McMini

open Foundation

namespace StateSequence

variable {s : StateSequence}

/-- The representative of a settled sequence sees the object of each runner. -/
theorem Settled.getObjidForRunnerAt (h : s.Settled) {p : RunnerId} {i : ObjId}
    (hi : s.runnerToObjMap.lookup p = some i) :
    s.getObjidForRunnerAt s.representative p = some i := by
  have hp : p < s.representative.maxVisibleRunnerId := by
    rw [h.current.runners, ← h.consistent.lookup_runner_lt, hi]
    rfl
  have hcontains : s.containsRunnerWithIdAt s.representative p = true := by
    rw [containsRunnerWithIdAt, hi, Bool.and_eq_true]
    exact ⟨decide_eq_true hp, rfl⟩
  rw [StateSequence.getObjidForRunnerAt, if_pos hcontains, hi]

/-- And the runner of each such object. -/
theorem Settled.getRunnerIdForObjAt (h : s.Settled) {p : RunnerId} {i : ObjId}
    (hi : s.runnerToObjMap.lookup p = some i) :
    s.getRunnerIdForObjAt s.representative i = some p := by
  have hp : s.runnerToObjMap.rangeLookup i = some p :=
    InjectiveFunction.lookup_eq_some_iff.mp hi
  have hcount : i < s.representative.count := by
    rw [h.current.count_eq]
    exact h.consistent.runnerObjects p i hi
  have hrunner : s.isRunnerAt s.representative i = true := by
    rw [isRunnerAt, hp, Bool.and_eq_true]
    exact ⟨decide_eq_true hcount, rfl⟩
  rw [StateSequence.getRunnerIdForObjAt, if_pos hrunner, hp]

/-- What adding a runner makes of a settled sequence. -/
structure AddsRunner (s : StateSequence) (t : Thread) (s' : StateSequence) : Prop where
  settled : s'.Settled
  lookup : ∀ p, s'.runnerToObjMap.lookup p =
    if s.runnerToObjMap.size = p then some s.visibleObjects.length
    else s.runnerToObjMap.lookup p
  size : s'.runnerToObjMap.size = s.runnerToObjMap.size + 1
  objects : s'.visibleObjects = s.visibleObjects ++ [.ofState (.thread t)]

theorem Settled.addsRunner (h : s.Settled) (t : Thread) :
    AddsRunner s t (s.addRunner t).1 := by
  obtain ⟨m, hforward, heq⟩ := h.consistent.addRunner_eq t
  have hsettled := (h.addRunner t).1
  rw [heq] at hsettled ⊢
  have hsize := InjectiveFunction.size_of_forward_insert h.consistent.runnerKeys hforward
  refine ⟨hsettled, fun p => ?_, hsize, rfl⟩
  show m.lookup p = _
  rw [InjectiveFunction.lookup, hforward, lookup_insert]
  rfl

variable {s' : StateSequence} {t : Thread}

theorem AddsRunner.lookup_self (h : AddsRunner s t s') :
    s'.runnerToObjMap.lookup s.runnerToObjMap.size = some s.visibleObjects.length := by
  rw [h.lookup, if_pos rfl]

/-- The new runner is in the state it was added with. -/
theorem AddsRunner.getStateOfRunner (h : AddsRunner s t s') :
    s'.toState.getStateOfRunner s.runnerToObjMap.size = .ok t := by
  refine State.getStateOfRunner_eq_ok.mpr ⟨s.visibleObjects.length, ?_, ?_⟩
  · exact h.settled.getObjidForRunnerAt h.lookup_self
  · rw [h.settled.current.objectState, h.objects]
    simp

/-- Runners which were there keep their objects. -/
theorem AddsRunner.lookup_of_some (h : AddsRunner s t s') (hs : s.Settled) {p : RunnerId}
    {i : ObjId} (hi : s.runnerToObjMap.lookup p = some i) :
    s'.runnerToObjMap.lookup p = some i := by
  have hp : p < s.runnerToObjMap.size :=
    hs.consistent.lookup_runner_lt.mp (Option.isSome_iff_exists.mpr ⟨i, hi⟩)
  rw [h.lookup, if_neg hp.ne', hi]

end StateSequence

/-! ### What the callback answers -/

section Callback

variable {c : Coordinator} {handle : Addr} {p : RunnerId}

/-- The runner at an address which the model knows. -/
theorem Coordinator.getModelOfRunner_eq (hs : c.getStateSequence.Settled) {r : RunnerId}
    {i : ObjId} (hhandle : c.systemAddressMapping.lookup handle = some i)
    (hr : c.getStateSequence.runnerToObjMap.lookup r = some i) (hi : i ≠ objidInvalid) :
    c.getModelOfRunner handle = r := by
  have hobject : c.getModelOfObject handle = i := by
    rw [getModelOfObject, hhandle, Option.getD_some]
  rw [getModelOfRunner, hobject, if_pos hi, hs.getRunnerIdForObjAt hr, Option.getD_some]

/-- A known thread is not added again. -/
theorem threadCreateCallback_known (h : c.getModelOfRunner handle ≠ ridInvalid) :
    (threadCreateCallback p handle).run c =
      (.ok ⟨p, .threadCreate (c.getModelOfRunner handle)⟩, c) := by
  have hknown : c.containsRunner handle = true := by
    rw [Coordinator.containsRunner, bne_iff_ne]
    exact h
  simp only [threadCreateCallback, run_bind, run_get, hknown]
  rfl

/-- Observing a runner at an unknown address adds the next runner. -/
theorem observeRunner_run (hs : c.getStateSequence.Settled) (hcontains : c.contains handle = false)
    (t : Thread) (f : RunnerId → Transition) :
    ∃ s', StateSequence.AddsRunner c.getStateSequence t s' ∧
      (observeRunner handle t f).run c = (.ok (),
        ⟨⟨s', c.currentProgramModel.trace, c.currentProgramModel.nextSteps.insert
            (f c.getStateSequence.runnerToObjMap.size).executor
            (f c.getStateSequence.runnerToObjMap.size)⟩,
          c.insertAddress handle c.getStateSequence.visibleObjects.length, c.executed⟩) := by
  obtain ⟨s', hs'⟩ : ∃ s', c.getStateSequence.addRunner t =
      (s', .ok c.getStateSequence.runnerToObjMap.size) := ⟨_, Prod.ext rfl (hs.addRunner t).2⟩
  have hadds : StateSequence.AddsRunner c.getStateSequence t s' := by
    have hadds := hs.addsRunner t
    rwa [hs'] at hadds
  have hobjid := hadds.settled.getObjidForRunnerAt hadds.lookup_self
  refine ⟨s', hadds, ?_⟩
  unfold observeRunner
  simp only [run_bind, run_get, hcontains, hs', hobjid]
  rfl

/-- A thread at an unknown address becomes the next runner. -/
theorem threadCreateCallback_unknown (hs : c.getStateSequence.Settled)
    (hhandle : c.systemAddressMapping.lookup handle = none)
    (hsize : c.getStateSequence.visibleObjects.length < objidInvalid) :
    ∃ c', (threadCreateCallback p handle).run c =
        (.ok ⟨p, .threadCreate c.getStateSequence.runnerToObjMap.size⟩, c') ∧
      StateSequence.AddsRunner c.getStateSequence ⟨.embryo⟩ c'.getStateSequence ∧
      c'.systemAddressMapping =
        c.systemAddressMapping.insert handle c.getStateSequence.visibleObjects.length := by
  have hobject : c.getModelOfObject handle = objidInvalid := by
    rw [Coordinator.getModelOfObject, hhandle, Option.getD_none]
  have hcontains : c.contains handle = false := by
    simp [Coordinator.contains, hobject]
  have hunknown : c.containsRunner handle = false := by
    simp [Coordinator.containsRunner, Coordinator.getModelOfRunner, hobject]
  obtain ⟨s', hadds, hobserve⟩ := observeRunner_run hs hcontains ⟨.embryo⟩ fun id => ⟨id, .threadStart⟩
  rw [Coordinator.insertAddress_of_unknown hhandle] at hobserve
  set size := c.getStateSequence.runnerToObjMap.size
  let c' : Coordinator :=
    ⟨⟨s', c.currentProgramModel.trace, c.currentProgramModel.nextSteps.insert size
        ⟨size, .threadStart⟩⟩,
      c.systemAddressMapping.insert handle c.getStateSequence.visibleObjects.length, c.executed⟩
  have hmodel : c'.getModelOfRunner handle = size :=
    @Coordinator.getModelOfRunner_eq c' _ hadds.settled _ _ (by simp [c']) hadds.lookup_self
      hsize.ne
  refine ⟨c', ?_, hadds, rfl⟩
  have hread : (get >>= fun d : Coordinator =>
      (pure ⟨p, .threadCreate (d.getModelOfRunner handle)⟩ : CoordinatorM Transition)).run c' =
        (.ok ⟨p, .threadCreate size⟩, c') := by
    rw [run_bind, run_get, ← hmodel]
    rfl
  unfold threadCreateCallback
  rw [run_bind, run_get]
  dsimp only
  rw [hunknown, Bool.not_false, if_pos rfl, run_bind, hobserve]
  exact hread

end Callback

/-! ### What a branch keeps -/

/-- The coordinator has a runner for the main thread and for each of the threads created so far,
and has met the handles of the latter. -/
structure Coordinator.Numbers (c : Coordinator) (created : List Addr) : Prop where
  settled : c.getStateSequence.Settled
  size : c.getStateSequence.runnerToObjMap.size = created.length + 1
  objects : c.getStateSequence.visibleObjects.length = created.length + 1
  known : ∀ handle ∈ created, ∃ r i, c.systemAddressMapping.lookup handle = some i ∧
    c.getStateSequence.runnerToObjMap.lookup r = some i
  unknown : ∀ handle, handle ∉ created → c.systemAddressMapping.lookup handle = none

namespace Coordinator.Numbers

variable {c c' : Coordinator} {created : List Addr} {handle : Addr} {p : RunnerId}

theorem afterProcess (h : c.Numbers created) (p : RunnerId) : (c.afterProcess p).Numbers created :=
  ⟨h.settled, h.size, h.objects, h.known, h.unknown⟩

/-- Executing a transition of the model adds neither objects nor runners. -/
theorem follow (h : c.Numbers created) {s' : StateSequence} {t : Transition}
    (hfollow : c.getStateSequence.follow t = (s', .ok .exists'))
    (hsequence : c'.getStateSequence = s')
    (hmapping : c'.systemAddressMapping = c.systemAddressMapping) : c'.Numbers created := by
  obtain ⟨hrunners, -, hlength, -⟩ := StateSequence.continues_follow hfollow
  subst hsequence
  refine ⟨h.settled.follow hfollow, ?_, hlength.trans h.objects, ?_, ?_⟩
  · rw [hrunners, h.size]
  · rw [hrunners, hmapping]
    exact h.known
  · rw [hmapping]
    exact h.unknown

/-- A thread with a new handle becomes the next runner. -/
theorem create (h : c.Numbers created) (hnew : handle ∉ created)
    (hlength : created.length < 65535) :
    ∃ c', (threadCreateCallback p handle).run c = (.ok ⟨p, .threadCreate (created.length + 1)⟩, c') ∧
      c'.Numbers (created ++ [handle]) ∧
      c.getStateSequence.runnerToObjMap.lookup (created.length + 1) = none ∧
      c'.getStateSequence.toState.getStateOfRunner (created.length + 1) = .ok ⟨.embryo⟩ := by
  have hbound : c.getStateSequence.visibleObjects.length < objidInvalid := by
    rw [h.objects, objidInvalid]
    omega
  obtain ⟨c', hrun, hadds, hmapping⟩ :=
    threadCreateCallback_unknown (p := p) h.settled (h.unknown handle hnew) hbound
  have hembryo := hadds.getStateOfRunner
  rw [h.size] at hrun hembryo
  refine ⟨c', hrun, ⟨hadds.settled, ?_, ?_, ?_, ?_⟩, ?_, hembryo⟩
  · rw [hadds.size, h.size, List.length_append]
    rfl
  · rw [hadds.objects, List.length_append, List.length_append, h.objects]
    rfl
  · intro handle' hmem
    rw [hmapping, lookup_insert]
    by_cases hsame : handle = handle'
    · exact ⟨_, _, if_pos hsame, hadds.lookup_self⟩
    · have hold : handle' ∈ created :=
        (List.mem_append.mp hmem).resolve_right fun hlast =>
          hsame (List.mem_singleton.mp hlast).symm
      obtain ⟨r, i, hi, hr⟩ := h.known handle' hold
      exact ⟨r, i, (if_neg hsame).trans hi, hadds.lookup_of_some h.settled hr⟩
  · intro handle' hmem
    rw [List.mem_append, List.mem_singleton, not_or] at hmem
    rw [hmapping, lookup_insert, if_neg (Ne.symm hmem.2), h.unknown handle' hmem.1]
  · rw [← h.size, ← Option.not_isSome_iff_eq_none, h.settled.consistent.lookup_runner_lt]
    exact lt_irrefl _

/-- A handle which was seen before stands for its runner from then. -/
theorem known_runner (h : c.Numbers created) (hold : handle ∈ created)
    (hlength : created.length < 65535) :
    ∃ r, c.getModelOfRunner handle = r ∧ r < created.length + 1 := by
  obtain ⟨r, i, hi, hr⟩ := h.known handle hold
  have hr_lt : r < created.length + 1 := by
    rw [← h.size]
    exact h.settled.consistent.lookup_runner_lt.mp (Option.isSome_iff_exists.mpr ⟨i, hr⟩)
  have hbound : c.getStateSequence.visibleObjects.length < objidInvalid := by
    rw [h.objects, objidInvalid]
    omega
  have hvalid : i ≠ objidInvalid :=
    ((h.settled.consistent.runnerObjects r i hr).trans hbound).ne
  exact ⟨r, getModelOfRunner_eq h.settled hi hr hvalid, hr_lt⟩

end Coordinator.Numbers

namespace Threads

variable {main handle : Addr} {created : List Addr} {s s' : State} {p : RunnerId}
  {t : PosixThread} {call : Call}

/-- The library and the model have numbered the threads alike. -/
structure State.Aligned (s : State) (created : List Addr) : Prop where
  numbers : s.coordinator.Numbers created
  tidNext : s.tidNext = (created.length + 1) % 65536
  registered : s.pthreadMap = (s.threads.map fun t => (t.handle, t.runner)).reverse
  latest : s.threads.Pairwise fun t u => t.handle = u.handle → t.joined = true

/-- The latest entry for a handle is that of the thread it denotes. -/
theorem find?_latest {threads : List PosixThread}
    (hlatest : threads.Pairwise fun t u => t.handle = u.handle → t.joined = true)
    (ht : t ∈ threads) (hjoined : t.joined = false) :
    (threads.map fun t => (t.handle, t.runner)).reverse.find? (·.1 = t.handle) =
      some (t.handle, t.runner) := by
  induction threads using List.reverseRecOn with
  | nil => simp at ht
  | append_singleton threads u ih =>
    obtain ⟨hlatest, -, hlast⟩ := List.pairwise_append.mp hlatest
    rw [List.map_append, List.reverse_append]
    by_cases hu : u.handle = t.handle
    · -- an earlier thread with this handle has been joined
      have hold : t ∉ threads := by
        intro hmem
        have hjoined' := hlast t hmem u (List.mem_singleton.mpr rfl) hu.symm
        rw [hjoined] at hjoined'
        exact Bool.false_ne_true hjoined'
      obtain rfl : t = u :=
        List.mem_singleton.mp ((List.mem_append.mp ht).resolve_left hold)
      simp
    · have hmem : t ∈ threads := by
        refine (List.mem_append.mp ht).resolve_right fun hlast => hu ?_
        rw [List.mem_singleton.mp hlast]
      have htail := ih hlatest hmem
      simpa [hu] using htail

theorem State.Aligned.searchPthreadMap (h : s.Aligned created) (ht : s.Denotes handle t) :
    s.searchPthreadMap handle = t.runner := by
  obtain ⟨hmem, rfl, hjoined⟩ := ht
  have hfind : s.pthreadMap.find? (·.1 = t.handle) = some (t.handle, t.runner) := by
    rw [h.registered]
    exact find?_latest h.latest hmem hjoined
  rw [State.searchPthreadMap, hfind]

@[simp]
theorem PosixThread.join_handle : (t.join handle).handle = t.handle := by
  unfold PosixThread.join
  split <;> rfl

@[simp]
theorem PosixThread.join_runner : (t.join handle).runner = t.runner := by
  unfold PosixThread.join
  split <;> rfl

theorem PosixThread.join_joined (h : t.joined = true) : (t.join handle).joined = true := by
  unfold PosixThread.join
  split
  · rfl
  · exact h

/-- Joining renames nothing. -/
theorem State.Aligned.performJoin (h : s.Aligned created) (p : RunnerId) :
    (s.performJoin p).Aligned created := by
  unfold State.performJoin
  cases s.joining p with
  | none => exact h
  | some handle =>
    refine ⟨h.numbers, h.tidNext, ?_, ?_⟩
    · show s.pthreadMap = _
      rw [h.registered, List.map_map]
      refine congrArg List.reverse (List.map_congr_left fun t _ => ?_)
      simp
    · refine List.pairwise_map.mpr (h.latest.imp fun {t u} htu hsame => ?_)
      rw [PosixThread.join_handle, PosixThread.join_handle] at hsame
      exact PosixThread.join_joined (htu hsame)

/-- What a report does when the model can follow. -/
theorem State.report_eq_some {contents : MailboxContents}
    (h : s.report p contents = some s') :
    ∃ t c₁ next sequence, (callback p contents).run (s.coordinator.afterProcess p) = (.ok t, c₁) ∧
      c₁.getStateSequence.follow next = (sequence, .ok .exists') ∧
      s' = { s with coordinator := { c₁ with currentProgramModel :=
        ⟨sequence, c₁.currentProgramModel.trace ++ [next],
          c₁.currentProgramModel.nextSteps.insert p t⟩ } } := by
  unfold State.report at h
  rcases hrun : (executeRunner (fun _ _ => .ok contents) p).run s.coordinator with ⟨_ | _, c'⟩
  · rw [hrun] at h
    cases h
  · rw [hrun] at h
    obtain ⟨contents', t, c₁, next, sequence, hsource, hcallback, -, -, hfollow, rfl⟩ :=
      executeRunner_eq_ok hrun
    obtain rfl := Except.ok.inj hsource
    exact ⟨t, c₁, next, sequence, hcallback, hfollow, (Option.some.inj h).symm⟩

/-- A report about no new thread. -/
theorem State.Aligned.report (h : s.Aligned created) {contents : MailboxContents}
    (hobserved : contents.observed = none) (hreport : s.report p contents = some s') :
    s'.Aligned created := by
  obtain ⟨t, c₁, next, sequence, hcallback, hfollow, rfl⟩ := State.report_eq_some hreport
  have hc₁ : c₁ = s.coordinator.afterProcess p := by
    have hunchanged : ((callback p contents).run (s.coordinator.afterProcess p)).2 =
        s.coordinator.afterProcess p :=
      callback_unchanged fun a ha => by rw [hobserved] at ha; cases ha
    rwa [hcallback] at hunchanged
  subst hc₁
  exact ⟨h.numbers.follow hfollow rfl rfl, h.tidNext, h.registered, h.latest⟩

/-- A report about a new thread, which has registered under a new handle. -/
theorem State.Aligned.create (h : s.Aligned created) (hnew : handle ∉ created)
    (hlength : created.length < 65535)
    (hfree : ¬ ∃ t ∈ s.threads, t.handle = handle ∧ t.joined = false)
    (hreport : (s.registerThisThread handle).report p (.threadCreate handle) = some s') :
    s'.createdBy p = some (created.length + 1) ∧
      State.Aligned { s' with
        threads := s'.threads ++ [⟨handle, created.length + 1, false⟩] } (created ++ [handle]) := by
  obtain ⟨t, c₁, next, sequence, hcallback, hfollow, rfl⟩ := State.report_eq_some hreport
  have hnumbers := h.numbers.afterProcess p
  obtain ⟨c', hrun, hnumbers', -, -⟩ := hnumbers.create (p := p) hnew hlength
  obtain ⟨hok, rfl⟩ := Prod.mk.inj (hrun.symm.trans hcallback)
  obtain rfl := Except.ok.inj hok
  have htid : s.tidNext = created.length + 1 := by
    rw [h.tidNext]
    exact Nat.mod_eq_of_lt (by omega)
  refine ⟨?_, hnumbers'.follow hfollow rfl rfl, ?_, ?_, ?_⟩
  · show (c'.currentProgramModel.nextSteps.insert p _).lookup p >>= _ = _
    rw [lookup_insert, if_pos rfl]
    rfl
  · show (s.tidNext + 1) % 65536 = ((created ++ [handle]).length + 1) % 65536
    rw [htid, List.length_append, List.length_singleton]
  · show (handle, s.tidNext) :: s.pthreadMap = _
    rw [h.registered, htid]
    simp [State.registerThisThread]
  · show (s.threads ++ [_]).Pairwise _
    refine List.pairwise_append.mpr ⟨h.latest, List.pairwise_singleton _ _, ?_⟩
    intro u hu v hv hsame
    obtain rfl := List.mem_singleton.mp hv
    by_contra hjoined
    exact hfree ⟨u, hu, hsame, Bool.not_eq_true _ ▸ hjoined⟩

/-- Each call keeps the numberings alike, if no new thread has a handle seen before. -/
theorem State.Aligned.step (h : s.Aligned created)
    (hnew : ∀ handle, call.operation = .create handle → handle ∉ created)
    (hlength : created.length < 65535) (hstep : Threads.step call s = some s') :
    s'.Aligned (created ++ createdHandles [call]) := by
  have hjoined := h.performJoin call.runner
  obtain ⟨p, operation⟩ := call
  unfold Threads.step at hstep
  dsimp only at hstep hjoined
  cases operation with
  | create handle =>
    dsimp only at hstep
    split_ifs at hstep with hfree
    obtain ⟨s₁, hreport, hstep⟩ := Option.bind_eq_some_iff.mp hstep
    obtain ⟨runner, hrunner, rfl⟩ := Option.map_eq_some_iff.mp hstep
    obtain ⟨hcreated, haligned⟩ := hjoined.create (hnew handle rfl) hlength hfree hreport
    obtain rfl := Option.some.inj (hcreated.symm.trans hrunner)
    exact haligned
  | join handle =>
    dsimp only at hstep
    split_ifs at hstep
    obtain ⟨s₁, hreport, rfl⟩ := Option.map_eq_some_iff.mp hstep
    have haligned := hjoined.report rfl hreport
    rw [createdHandles, List.filterMap_cons_none rfl, List.filterMap_nil, List.append_nil]
    exact ⟨haligned.numbers, haligned.tidNext, haligned.registered, haligned.latest⟩
  | exit =>
    have haligned := hjoined.report rfl hstep
    rwa [createdHandles, List.filterMap_cons_none rfl, List.filterMap_nil, List.append_nil]

theorem aligned_start (main : Addr) : (start main).Aligned [] := by
  refine ⟨⟨StateSequence.settled_ofDetachedState _, rfl, rfl, ?_, ?_⟩, rfl, rfl, ?_⟩
  · intro handle hmem
    exact absurd hmem List.not_mem_nil
  · intro handle _
    exact Finmap.lookup_empty handle
  · exact List.pairwise_singleton _ _

theorem createdHandles_concat (calls : List Call) (call : Call) :
    createdHandles (calls ++ [call]) = createdHandles calls ++ createdHandles [call] :=
  List.filterMap_append

/-- A run in which no handle was given to two new threads. -/
theorem aligned_of_run {calls : List Call} (hrun : runFrom Threads.step (start main) calls = some s)
    (hdistinct : (createdHandles calls).Nodup) (hlength : (createdHandles calls).length < 65535) :
    s.Aligned (createdHandles calls) := by
  refine runFrom_induction (P := fun calls s => (createdHandles calls).Nodup →
    (createdHandles calls).length < 65535 → s.Aligned (createdHandles calls)) ?_ ?_ hrun
    hdistinct hlength
  · intro _ _
    exact aligned_start main
  · intro calls s call s' _ ih hstep hdistinct hlength
    rw [createdHandles_concat] at hdistinct hlength ⊢
    have hbefore : (createdHandles calls).length < 65535 := by
      rw [List.length_append] at hlength
      omega
    refine (ih hdistinct.of_append_left hbefore).step ?_ hbefore hstep
    intro handle hcall hmem
    have hlast : handle ∈ createdHandles [call] := by
      simp [createdHandles, hcall]
    exact List.disjoint_of_nodup_append hdistinct hmem hlast

/-! ### When the numberings agree -/

/-- The callback for the creation of a thread with the handle names a runner which is new to
the model, an embryo, and has the number which the library gives the thread. -/
def State.CreateAgrees (s : State) (p : RunnerId) (handle : Addr) : Prop :=
  ∃ rid c', (callback p (.threadCreate handle)).run (s.coordinator.afterProcess p) =
      (.ok ⟨p, .threadCreate rid⟩, c') ∧
    s.coordinator.getStateSequence.runnerToObjMap.lookup rid = none ∧
    c'.getStateSequence.toState.getStateOfRunner rid = .ok ⟨.embryo⟩ ∧ rid = s.tidNext

theorem State.Aligned.createAgrees_iff (h : s.Aligned created) (hlength : created.length < 65535) :
    s.CreateAgrees p handle ↔ handle ∉ created := by
  have hnumbers := h.numbers.afterProcess p
  constructor
  · rintro ⟨rid, c', hrun, hfresh, -⟩ hold
    obtain ⟨r, hr, hr_lt⟩ := hnumbers.known_runner hold hlength
    have hbound : created.length + 1 ≤ ridInvalid := hlength
    have hvalid : (s.coordinator.afterProcess p).getModelOfRunner handle ≠ ridInvalid := by
      rw [hr]
      exact (hr_lt.trans_le hbound).ne
    obtain ⟨hok, -⟩ := Prod.mk.inj ((threadCreateCallback_known (p := p) hvalid).symm.trans hrun)
    have hrid : r = rid := by
      rw [hr] at hok
      injection hok with htransition
      injection htransition with _ hop
      injection hop
    have hsome : (s.coordinator.getStateSequence.runnerToObjMap.lookup rid).isSome = true := by
      rw [h.numbers.settled.consistent.lookup_runner_lt, h.numbers.size, ← hrid]
      exact hr_lt
    rw [hfresh] at hsome
    exact Bool.false_ne_true hsome
  · intro hnew
    obtain ⟨c', hrun, -, hfresh, hembryo⟩ := hnumbers.create (p := p) hnew hlength
    refine ⟨created.length + 1, c', hrun, hfresh, hembryo, ?_⟩
    rw [h.tidNext]
    exact (Nat.mod_eq_of_lt (by omega)).symm

/-- As long as each created thread had a handle of its own, the next creation of a thread
agrees exactly if its handle is new as well, and joins report the runner of the thread they
wait for. -/
theorem runner_ids_agree {calls : List Call}
    (hrun : runFrom Threads.step (start main) calls = some s)
    (hdistinct : (createdHandles calls).Nodup) (hlength : (createdHandles calls).length < 65535)
    (p : RunnerId) :
    (∀ handle, (s.performJoin p).CreateAgrees p handle ↔ handle ∉ createdHandles calls) ∧
      ∀ handle t, (s.performJoin p).Denotes handle t →
        (s.performJoin p).searchPthreadMap handle = t.runner := by
  have haligned := (aligned_of_run hrun hdistinct hlength).performJoin p
  exact ⟨fun handle => haligned.createAgrees_iff hlength,
    fun handle t ht => haligned.searchPthreadMap ht⟩

/-- The main thread creates one thread, and is about to create another. -/
theorem runner_ids_agree_of_create :
    ∃ s, runFrom Threads.step (start 100) [⟨0, .create 7⟩] = some s ∧
      ((∀ handle, (s.performJoin 0).CreateAgrees 0 handle ↔ handle ∉ [7]) ∧
        ∀ handle t, (s.performJoin 0).Denotes handle t →
          (s.performJoin 0).searchPthreadMap handle = t.runner) := by
  obtain ⟨s, hs⟩ := Option.isSome_iff_exists.mp
    (show (runFrom Threads.step (start 100) [⟨0, .create 7⟩]).isSome = true by rfl)
  exact ⟨s, hs, runner_ids_agree hs (by decide) (by decide) 0⟩

/-- The main thread joins the thread it has created, and gets its handle for the next. -/
private def reusing : List Call :=
  [⟨0, .create 7⟩, ⟨0, .join 7⟩, ⟨1, .exit⟩, ⟨1, .exit⟩]

/-- The numberings part when a handle is used again. -/
theorem not_createAgrees_of_reused :
    ¬ ∀ (main : Addr) (calls : List Call) (s : State) (p : RunnerId) (handle : Addr),
      runFrom Threads.step (start main) calls = some s →
      (Threads.step ⟨p, .create handle⟩ s).isSome = true →
      (s.performJoin p).CreateAgrees p handle := by
  intro h
  obtain ⟨s, hs⟩ := Option.isSome_iff_exists.mp
    (show (runFrom Threads.step (start 100) reusing).isSome = true by rfl)
  have hcreates : ((runFrom Threads.step (start 100) reusing).bind fun s =>
      Threads.step ⟨0, .create 7⟩ s).isSome = true := by rfl
  rw [hs] at hcreates
  have hagrees := h 100 reusing s 0 7 hs hcreates
  have haligned := (aligned_of_run hs (by decide) (by decide)).performJoin 0
  exact (haligned.createAgrees_iff (by decide)).mp hagrees (by decide)

end Threads

end McMini
