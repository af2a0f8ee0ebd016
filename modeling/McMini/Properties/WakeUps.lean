import McMini.Foundation.NestedChoices
import McMini.Model.Execution

/-!
# Wake-ups of a condition variable

What a condition variable is for is stated by the reference semantics `WakeUpStep`: threads
are blocked or released, a signal releases **one** blocked thread of its choice, a broadcast
releases all, and a wait is completed by a released thread only.

The model does not choose when a signal arrives. It remembers the set of threads the choice
was from as a wake group, and settles the choice when a thread leaves. The theorem is that
the two accept the same sequences of events (`accepts_iff_exists_wakeUpRun`): the states of
the reference are at all times those obtained by resolving the choices which the wake groups
defer (`represents_iff_wakeUpRun`). Wake groups are nested, since a later group contains the
threads of the earlier ones which still sleep, so that deferring is harmless.
-/

namespace McMini

open Foundation ConditionVariableArbitraryPolicy

/-! ### Events -/

/-- The operations on one condition variable. -/
inductive ConditionVariableEvent
  | enqueue (tid : RunnerId) (location : Addr)
  | signal
  | broadcast (executor : RunnerId)
  | wait (tid : RunnerId) (location : Addr)
  deriving DecidableEq, Repr

namespace ConditionVariable

/-- Performs an event on the condition variable, as the transition of the same name does.
A thread completes its wait only if it can leave. -/
def perform (e : ConditionVariableEvent) (cv : ConditionVariable) : Option ConditionVariable :=
  match e with
  | .enqueue tid location => some (cv.enqueueThread tid location)
  | .signal => some (if cv.hasWaiters then cv.signal else cv)
  | .broadcast executor => some (if cv.hasWaiters then cv.broadcast executor else cv)
  | .wait tid location => if cv.waiterCanExit tid then cv.wait tid location else none

/-- The condition variable which `condition_variable_init` stores. -/
def initialized : ConditionVariable := { currentState := .initialized }

/-- The model accepts the events, one after the other, from a new condition variable. -/
def Accepts (es : List ConditionVariableEvent) : Prop :=
  (runFrom perform initialized es).isSome = true

end ConditionVariable

/-- The transitions on a usable condition variable other than its initialization and
destruction perform an event on it, or leave it alone. -/
theorem ConditionVariableEffect.perform {s : State} {t : Transition} {c : ObjId}
    {cv cv' : ConditionVariable} (h : ConditionVariableEffect s t c cv cv')
    (hinit : t.op ≠ .conditionVariableInit c) (hdestroy : t.op ≠ .conditionVariableDestroy c) :
    cv' = cv ∨ ∃ e, cv.perform e = some cv' := by
  cases h with
  | unchanged => exact .inl rfl
  | init hop => exact absurd hop hinit
  | enqueue _ _ _ => exact .inr ⟨.enqueue _ _, rfl⟩
  | @wait i m newCv _ _ _ hexit _ _ hnew =>
    exact .inr ⟨.wait t.executor m.location, by simp [ConditionVariable.perform, hexit, hnew]⟩
  | signal _ _ hw => exact .inr ⟨.signal, by simp [ConditionVariable.perform, hw]⟩
  | broadcast _ _ hw =>
    exact .inr ⟨.broadcast t.executor, by simp [ConditionVariable.perform, hw]⟩
  | destroy hop _ _ => exact absurd hop hdestroy

/-! ### The reference -/

/-- The threads which sleep and the threads which were woken and have yet to leave. -/
@[ext]
structure WakeUpState where
  blocked : Finset RunnerId
  released : Finset RunnerId

/-- The reference semantics of a condition variable. -/
inductive WakeUpStep : WakeUpState → ConditionVariableEvent → WakeUpState → Prop
  | enqueue {w tid location} :
      WakeUpStep w (.enqueue tid location) ⟨insert tid w.blocked, w.released⟩
  | signal {w tid} : tid ∈ w.blocked →
      WakeUpStep w .signal ⟨w.blocked.erase tid, insert tid w.released⟩
  | signalNone {w} : w.blocked = ∅ → WakeUpStep w .signal w
  | broadcast {w executor} : WakeUpStep w (.broadcast executor) ⟨∅, w.released ∪ w.blocked⟩
  | wait {w tid location} : tid ∈ w.released →
      WakeUpStep w (.wait tid location) ⟨w.blocked, w.released.erase tid⟩

/-- Some resolution of the choices leads from `w` to `w'`. -/
inductive WakeUpRun (w : WakeUpState) : List ConditionVariableEvent → WakeUpState → Prop
  | nil : WakeUpRun w [] w
  | concat {es e w' w''} : WakeUpRun w es w' → WakeUpStep w' e w'' → WakeUpRun w (es ++ [e]) w''

/-- No thread sleeps and none was woken. -/
def WakeUpState.initial : WakeUpState := ⟨∅, ∅⟩

/-- The thread fell asleep and has not left since. -/
def Waiting (tid : RunnerId) (es : List ConditionVariableEvent) : Prop :=
  SinceLast (fun e => ∃ location, e = .enqueue tid location)
    (fun e => ∃ location, e = .wait tid location) False es

/-- A thread falls asleep only when it is not waiting already. -/
def EnqueuesWhenNotWaiting (es : List ConditionVariableEvent) : Prop :=
  ∀ pre tid location post, es = pre ++ .enqueue tid location :: post → ¬ Waiting tid pre

section

variable {w w' : WakeUpState} {es : List ConditionVariableEvent} {e : ConditionVariableEvent}
  {tid : RunnerId} {location : Addr}

theorem wakeUpRun_nil : WakeUpRun w [] w' ↔ w' = w := by
  refine ⟨fun h => ?_, fun h => h ▸ .nil⟩
  generalize hes : ([] : List ConditionVariableEvent) = es at h
  cases h with
  | nil => rfl
  | concat _ _ => simp at hes

theorem wakeUpRun_concat :
    WakeUpRun w (es ++ [e]) w' ↔ ∃ w₁, WakeUpRun w es w₁ ∧ WakeUpStep w₁ e w' := by
  refine ⟨fun h => ?_, fun ⟨w₁, hrun, hstep⟩ => .concat hrun hstep⟩
  generalize hes : es ++ [e] = es' at h
  cases h with
  | nil => simp at hes
  | concat hrun hstep =>
    obtain ⟨rfl, he⟩ := List.append_inj' hes rfl
    obtain rfl := List.singleton_inj.mp he
    exact ⟨_, hrun, hstep⟩

theorem wakeUpStep_enqueue :
    WakeUpStep w (.enqueue tid location) w' ↔ w' = ⟨insert tid w.blocked, w.released⟩ :=
  ⟨fun h => by cases h; rfl, fun h => h ▸ .enqueue⟩

theorem wakeUpStep_signal :
    WakeUpStep w .signal w' ↔
      (∃ tid ∈ w.blocked, w' = ⟨w.blocked.erase tid, insert tid w.released⟩) ∨
        (w.blocked = ∅ ∧ w' = w) := by
  constructor
  · intro h
    cases h with
    | signal h => exact .inl ⟨_, h, rfl⟩
    | signalNone h => exact .inr ⟨h, rfl⟩
  · rintro (⟨tid, h, rfl⟩ | ⟨h, rfl⟩)
    · exact .signal h
    · exact .signalNone h

theorem wakeUpStep_broadcast {executor : RunnerId} :
    WakeUpStep w (.broadcast executor) w' ↔ w' = ⟨∅, w.released ∪ w.blocked⟩ :=
  ⟨fun h => by cases h; rfl, fun h => h ▸ .broadcast⟩

theorem wakeUpStep_wait :
    WakeUpStep w (.wait tid location) w' ↔
      tid ∈ w.released ∧ w' = ⟨w.blocked, w.released.erase tid⟩ :=
  ⟨fun h => by cases h with | wait h => exact ⟨h, rfl⟩, fun ⟨h, heq⟩ => heq ▸ .wait h⟩

theorem EnqueuesWhenNotWaiting.of_concat (h : EnqueuesWhenNotWaiting (es ++ [e])) :
    EnqueuesWhenNotWaiting es := by
  intro pre tid location post heq
  exact h pre tid location (post ++ [e]) (by simp [heq])

end

/-! ### The policy -/

namespace ConditionVariable

/-- The wake groups as sets. -/
def groups (cv : ConditionVariable) : List (Finset RunnerId) :=
  cv.policy.wakeGroups.map List.toFinset

/-- What holds of a condition variable which was initialized and then used by threads which
fall asleep only when they are not waiting. -/
structure WellFormed (cv : ConditionVariable) : Prop where
  noSpurious : cv.numRemainingSpuriousWakeups = 0
  sleeping : ∀ t ∈ cv.policy.waitQueue, getThreadCvState cv.policy t = .waiting
  nodup : cv.policy.waitQueue.Nodup
  nested : Nested cv.groups
  queued : ∀ g ∈ cv.groups, ∀ t ∈ g, t ∈ cv.policy.waitQueue
  separate : ∀ t ∈ cv.policy.broadcastEligibleThreads, t ∉ cv.policy.waitQueue

/-- The states of the reference which the condition variable stands for: the choices which
the wake groups defer are resolved in some way. -/
def Represents (cv : ConditionVariable) (w : WakeUpState) : Prop :=
  ∃ M, Choice cv.groups M ∧
    w = ⟨cv.policy.waitQueue.toFinset \ M, cv.policy.broadcastEligibleThreads ∪ M⟩

theorem wellFormed_initialized : WellFormed initialized where
  noSpurious := rfl
  sleeping _ ht := absurd ht List.not_mem_nil
  nodup := List.nodup_nil
  nested := List.Pairwise.nil
  queued _ hg := absurd hg List.not_mem_nil
  separate _ ht := absurd ht (Finset.notMem_empty _)

theorem represents_initialized {w : WakeUpState} :
    Represents initialized w ↔ w = .initial := by
  constructor
  · rintro ⟨M, hM, rfl⟩
    obtain rfl := choice_nil.mp hM
    rfl
  · rintro rfl
    exact ⟨∅, .nil, rfl⟩

variable {cv newCv : ConditionVariable} {t p : RunnerId} {location : Addr} {w w' : WakeUpState}
  {M : Finset RunnerId}

theorem WellFormed.choice_queued (hwf : cv.WellFormed) (hM : Choice cv.groups M) (ht : t ∈ M) :
    t ∈ cv.policy.waitQueue := by
  obtain ⟨g, hg, htg⟩ := hM.mem_group ht
  exact hwf.queued g hg t htg

theorem WellFormed.waitingThreads_eq (hwf : cv.WellFormed) :
    cv.waitingThreads = cv.policy.waitQueue :=
  ConditionVariable.waitingThreads_eq hwf.sleeping

theorem hasWaiters_eq_false_iff : cv.hasWaiters = false ↔ cv.policy.waitQueue = [] := by
  simp [ConditionVariable.hasWaiters, ConditionVariableArbitraryPolicy.hasWaiters]

/-- While nobody is queued the condition variable stands for one state of the reference. -/
theorem WellFormed.represents_of_queue_empty (hwf : cv.WellFormed)
    (hq : cv.policy.waitQueue = []) :
    cv.Represents w ↔ w = ⟨∅, cv.policy.broadcastEligibleThreads⟩ := by
  have hempty : ∀ g ∈ cv.groups, g = ∅ := fun g hg =>
    Finset.eq_empty_of_forall_notMem fun t ht => by simpa [hq] using hwf.queued g hg t ht
  simp only [Represents, choice_iff_of_forall_empty hempty, exists_eq_left, hq]
  simp

/-! ### Falling asleep -/

theorem WellFormed.enqueue (hwf : cv.WellFormed) (ht : t ∉ cv.policy.waitQueue)
    (ht' : t ∉ cv.policy.broadcastEligibleThreads) :
    (cv.enqueueThread t location).WellFormed where
  noSpurious := rfl
  sleeping u hu := by
    rw [enqueueThread_getThreadCvState]
    split_ifs with hut
    · rfl
    · simp only [enqueueThread_waitQueue, List.mem_append, List.mem_singleton, hut, or_false] at hu
      exact hwf.sleeping u hu
  nodup := by
    rw [enqueueThread_waitQueue, List.nodup_append]
    exact ⟨hwf.nodup, List.nodup_singleton t, fun a ha b hb hab =>
      ht ((List.mem_singleton.mp hb) ▸ hab ▸ ha)⟩
  nested := by simpa [groups] using hwf.nested
  queued g hg u hu := by
    rw [enqueueThread_waitQueue]
    exact List.mem_append_left _ (hwf.queued g (by simpa [groups] using hg) u hu)
  separate u hu := by
    rw [enqueueThread_broadcastEligibleThreads] at hu
    have hut : u ≠ t := fun h => ht' (h ▸ hu)
    simpa [hut] using hwf.separate u hu

theorem WellFormed.represents_enqueue (hwf : cv.WellFormed) (ht : t ∉ cv.policy.waitQueue) :
    (cv.enqueueThread t location).Represents w' ↔
      ∃ w, cv.Represents w ∧ WakeUpStep w (.enqueue t location) w' := by
  have hgroups : (cv.enqueueThread t location).groups = cv.groups := by simp [groups]
  have hqueue : ∀ {M}, Choice cv.groups M →
      (cv.policy.waitQueue ++ [t]).toFinset \ M = insert t (cv.policy.waitQueue.toFinset \ M) := by
    intro M hM
    have htM : t ∉ M := fun h => ht (hwf.choice_queued hM h)
    have happend : (cv.policy.waitQueue ++ [t]).toFinset = insert t cv.policy.waitQueue.toFinset := by
      ext u
      simp
    rw [happend, Finset.insert_sdiff_of_notMem _ htM]
  simp only [Represents, hgroups, wakeUpStep_enqueue, enqueueThread_waitQueue,
    enqueueThread_broadcastEligibleThreads]
  constructor
  · rintro ⟨M, hM, rfl⟩
    exact ⟨_, ⟨M, hM, rfl⟩, by rw [hqueue hM]⟩
  · rintro ⟨w, ⟨M, hM, rfl⟩, rfl⟩
    exact ⟨M, hM, by rw [hqueue hM]⟩

/-! ### Signals -/

theorem WellFormed.signal_groups (hwf : cv.WellFormed) (hq : cv.policy.waitQueue ≠ []) :
    cv.signal.groups = cv.groups ++ [cv.policy.waitQueue.toFinset] := by
  have hne : cv.waitingThreads ≠ [] := hwf.waitingThreads_eq ▸ hq
  simp [groups, signal_wakeGroups hne, hwf.waitingThreads_eq]

theorem WellFormed.signal (hwf : cv.WellFormed) (hq : cv.policy.waitQueue ≠ []) :
    cv.signal.WellFormed where
  noSpurious := rfl
  sleeping u hu := by
    rw [signal_getThreadCvState]
    exact hwf.sleeping u (by simpa using hu)
  nodup := by simpa using hwf.nodup
  nested := by
    rw [hwf.signal_groups hq, nested_concat]
    exact ⟨hwf.nested, fun g hg u hu => List.mem_toFinset.mpr (hwf.queued g hg u hu)⟩
  queued g hg u hu := by
    rw [signal_waitQueue]
    rw [hwf.signal_groups hq, List.mem_append, List.mem_singleton] at hg
    rcases hg with hg | rfl
    · exact hwf.queued g hg u hu
    · exact List.mem_toFinset.mp hu
  separate u hu := by
    rw [signal_waitQueue]
    exact hwf.separate u (by simpa using hu)

theorem WellFormed.represents_signal (hwf : cv.WellFormed) (hq : cv.policy.waitQueue ≠ []) :
    cv.signal.Represents w' ↔ ∃ w, cv.Represents w ∧ WakeUpStep w .signal w' := by
  simp only [Represents, hwf.signal_groups hq, choice_concat, wakeUpStep_signal,
    signal_waitQueue, signal_broadcastEligibleThreads]
  constructor
  · rintro ⟨N, ⟨M, hM, ⟨r, hr, hnot, rfl⟩ | ⟨hsub, rfl⟩⟩, rfl⟩
    · refine ⟨_, ⟨M, hM, rfl⟩, .inl ⟨r, Finset.mem_sdiff.mpr ⟨hr, hnot⟩, ?_⟩⟩
      rw [Finset.sdiff_insert, Finset.union_insert]
    · exact ⟨_, ⟨N, hM, rfl⟩, .inr ⟨Finset.sdiff_eq_empty_iff_subset.mpr hsub, rfl⟩⟩
  · rintro ⟨w, ⟨M, hM, rfl⟩, ⟨r, hr, rfl⟩ | ⟨hempty, rfl⟩⟩
    · obtain ⟨hrq, hnot⟩ := Finset.mem_sdiff.mp hr
      refine ⟨insert r M, ⟨M, hM, .inl ⟨r, hrq, hnot, rfl⟩⟩, ?_⟩
      rw [Finset.sdiff_insert, Finset.union_insert]
    · exact ⟨M, ⟨M, hM, .inr ⟨Finset.sdiff_eq_empty_iff_subset.mp hempty, rfl⟩⟩, rfl⟩

/-! ### Broadcasts -/

theorem WellFormed.broadcast_eligible (hwf : cv.WellFormed) :
    (cv.broadcast p).policy.broadcastEligibleThreads =
      cv.policy.broadcastEligibleThreads ∪ cv.policy.waitQueue.toFinset := by
  ext u
  rw [mem_broadcast_broadcastEligibleThreads, Finset.mem_union, List.mem_toFinset]
  have hgroup : (∃ wg ∈ cv.policy.wakeGroups, u ∈ wg) → u ∈ cv.policy.waitQueue := by
    rintro ⟨wg, hwg, hu⟩
    exact hwf.queued _ (List.mem_map_of_mem hwg) u (List.mem_toFinset.mpr hu)
  rw [or_iff_right_of_imp hgroup]

theorem WellFormed.broadcast : (cv.broadcast p).WellFormed where
  noSpurious := rfl
  sleeping u hu := by simp at hu
  nodup := List.nodup_nil
  nested := List.Pairwise.nil
  queued g hg := by simp [groups] at hg
  separate u _ := by simp

theorem WellFormed.represents_broadcast (hwf : cv.WellFormed) :
    (cv.broadcast p).Represents w' ↔
      ∃ w, cv.Represents w ∧ WakeUpStep w (.broadcast p) w' := by
  have hall : ∀ {M}, Choice cv.groups M →
      cv.policy.broadcastEligibleThreads ∪ M ∪ (cv.policy.waitQueue.toFinset \ M) =
        cv.policy.broadcastEligibleThreads ∪ cv.policy.waitQueue.toFinset := by
    intro M hM
    rw [Finset.union_assoc, Finset.union_sdiff_of_subset]
    exact fun u hu => List.mem_toFinset.mpr (hwf.choice_queued hM hu)
  rw [WellFormed.broadcast.represents_of_queue_empty rfl, hwf.broadcast_eligible]
  simp only [wakeUpStep_broadcast, Represents]
  constructor
  · rintro rfl
    obtain ⟨M, hM⟩ := exists_choice cv.groups
    exact ⟨_, ⟨M, hM, rfl⟩, by rw [hall hM]⟩
  · rintro ⟨w, ⟨M, hM, rfl⟩, rfl⟩
    rw [hall hM]

/-! ### Waking up -/

/-- What waking up does to the policy: a thread released by a broadcast uses up its
release, any other thread consumes the first group which contains it. -/
theorem WellFormed.wait_cases (hwf : cv.WellFormed) (h : cv.wait t location = some newCv) :
    (t ∈ cv.policy.broadcastEligibleThreads ∧
        newCv.policy.broadcastEligibleThreads = cv.policy.broadcastEligibleThreads.erase t ∧
        newCv.groups = cv.groups) ∨
      (t ∉ cv.policy.broadcastEligibleThreads ∧ (∃ g ∈ cv.groups, t ∈ g) ∧
        newCv.policy.broadcastEligibleThreads = cv.policy.broadcastEligibleThreads ∧
        newCv.groups = consume cv.groups t) := by
  have hremove : ∀ wg : WakeGroup,
      (wg.removeCandidateThread t).toFinset = wg.toFinset.erase t := by
    intro wg
    ext u
    simp [and_comm]
  obtain ⟨-, -, -, -, hwake⟩ := wait_eq_some h
  unfold ConditionVariableDefaultPolicy.wakeThread at hwake
  split_ifs at hwake with hE hG
  · refine .inl ⟨hE, ?_⟩
    -- a released thread is in no group, so removing it changes none
    have hkeep : ∀ wg ∈ cv.policy.wakeGroups, (wg.removeCandidateThread t).toFinset = wg.toFinset := by
      intro wg hwg
      rw [hremove]
      refine Finset.erase_eq_of_notMem fun ht => hwf.separate t hE ?_
      exact hwf.queued _ (List.mem_map_of_mem hwg) t ht
    rw [groups, ← Option.some.inj hwake]
    refine ⟨rfl, ?_⟩
    rw [List.map_map]
    exact List.map_congr_left hkeep
  · refine .inr ⟨hE, ?_, ?_⟩
    · simpa [groups] using hG
    · rw [groups, ← Option.some.inj hwake]
      refine ⟨rfl, ?_⟩
      have hmem : (fun wg : WakeGroup => wg.contains t) =
          (fun g : Finset RunnerId => decide (t ∈ g)) ∘ List.toFinset := by
        funext wg
        simp
      rw [consume, groups, List.eraseP_map, ← hmem, List.map_map, List.map_map]
      exact List.map_congr_left fun wg _ => hremove wg

theorem WellFormed.wait (hwf : cv.WellFormed) (h : cv.wait t location = some newCv) :
    newCv.WellFormed := by
  obtain ⟨hspurious, -, hqueue, hstates, -⟩ := wait_eq_some h
  have hsleeping : ∀ u, getThreadCvState newCv.policy u = getThreadCvState cv.policy u :=
    fun u => by rw [getThreadCvState, hstates]; rfl
  refine ⟨hspurious, fun u hu => ?_, ?_, ?_, ?_, ?_⟩
  · rw [hsleeping]
    exact hwf.sleeping u (List.mem_of_mem_erase (hqueue ▸ hu))
  · exact hqueue ▸ hwf.nodup.erase t
  · rcases hwf.wait_cases h with ⟨-, -, hgroups⟩ | ⟨-, -, -, hgroups⟩
    · exact hgroups ▸ hwf.nested
    · exact hgroups ▸ hwf.nested.consume t
  · intro g hg u hu
    rw [hqueue]
    rcases hwf.wait_cases h with ⟨hE, -, hgroups⟩ | ⟨-, -, -, hgroups⟩
    · have huq := hwf.queued g (hgroups ▸ hg) u hu
      have hut : u ≠ t := fun heq => hwf.separate t hE (heq ▸ huq)
      exact (List.mem_erase_of_ne hut).mpr huq
    · obtain ⟨k, hk, rfl⟩ := exists_of_mem_consume (hgroups ▸ hg)
      obtain ⟨hut, huk⟩ := Finset.mem_erase.mp hu
      exact (List.mem_erase_of_ne hut).mpr (hwf.queued k hk u huk)
  · intro u hu huq
    have huE : u ∈ cv.policy.broadcastEligibleThreads := by
      rcases hwf.wait_cases h with ⟨-, heligible, -⟩ | ⟨-, -, heligible, -⟩
      · exact Finset.mem_of_mem_erase (heligible ▸ hu)
      · exact heligible ▸ hu
    exact hwf.separate u huE (List.mem_of_mem_erase (hqueue ▸ huq))

theorem WellFormed.represents_wait (hwf : cv.WellFormed) (h : cv.wait t location = some newCv) :
    newCv.Represents w' ↔ ∃ w, cv.Represents w ∧ WakeUpStep w (.wait t location) w' := by
  obtain ⟨-, -, hqueue, -, -⟩ := wait_eq_some h
  simp only [wakeUpStep_wait]
  rcases hwf.wait_cases h with ⟨hE, heligible, hgroups⟩ | ⟨hE, hgroup, heligible, hgroups⟩
  · have htq := hwf.separate t hE
    have hstep : ∀ {M}, Choice cv.groups M →
        cv.policy.broadcastEligibleThreads.erase t ∪ M =
          (cv.policy.broadcastEligibleThreads ∪ M).erase t := by
      intro M hM
      have htM : t ∉ M := fun ht => htq (hwf.choice_queued hM ht)
      rw [Finset.erase_union_distrib, Finset.erase_eq_of_notMem htM]
    simp only [Represents, hgroups, heligible, hqueue, List.erase_of_not_mem htq]
    constructor
    · rintro ⟨M, hM, rfl⟩
      exact ⟨_, ⟨M, hM, rfl⟩, Finset.mem_union_left _ hE, by rw [hstep hM]⟩
    · rintro ⟨w, ⟨M, hM, rfl⟩, -, rfl⟩
      exact ⟨M, hM, by rw [hstep hM]⟩
  · have hstep : ∀ {M}, t ∈ M →
        (⟨(cv.policy.waitQueue.erase t).toFinset \ M.erase t,
          cv.policy.broadcastEligibleThreads ∪ M.erase t⟩ : WakeUpState) =
        ⟨cv.policy.waitQueue.toFinset \ M, (cv.policy.broadcastEligibleThreads ∪ M).erase t⟩ := by
      intro M htM
      ext u
      · simp only [Finset.mem_sdiff, List.mem_toFinset, hwf.nodup.mem_erase_iff, Finset.mem_erase]
        by_cases hut : u = t
        · simp [hut, htM]
        · simp [hut]
      · by_cases hut : u = t
        · simp [hut, hE]
        · simp [hut]
    simp only [Represents, hgroups, heligible, hqueue, choice_consume hwf.nested hgroup]
    constructor
    · rintro ⟨N, ⟨M, hM, htM, rfl⟩, rfl⟩
      exact ⟨_, ⟨M, hM, rfl⟩, Finset.mem_union_right _ htM, hstep htM⟩
    · rintro ⟨w, ⟨M, hM, rfl⟩, ht, rfl⟩
      have htM : t ∈ M := (Finset.mem_union.mp ht).resolve_left hE
      exact ⟨_, ⟨M, hM, htM, rfl⟩, (hstep htM).symm⟩

/-- A thread can leave exactly when some resolution of the choices has released it. -/
theorem WellFormed.waiterCanExit_iff (hwf : cv.WellFormed) :
    cv.waiterCanExit t = true ↔ ∃ w, cv.Represents w ∧ t ∈ w.released := by
  have hexit : cv.waiterCanExit t = true ↔
      t ∈ cv.policy.broadcastEligibleThreads ∨ ∃ g ∈ cv.groups, t ∈ g := by
    simp [waiterCanExit, hwf.noSpurious, groups,
      ConditionVariableDefaultPolicy.threadCanExit_iff]
  rw [hexit]
  constructor
  · rintro (hE | hgroup)
    · obtain ⟨M, hM⟩ := exists_choice cv.groups
      exact ⟨_, ⟨M, hM, rfl⟩, Finset.mem_union_left _ hE⟩
    · obtain ⟨N, hN⟩ := exists_choice (consume cv.groups t)
      obtain ⟨M, hM, htM, -⟩ := (choice_consume hwf.nested hgroup).mp hN
      exact ⟨_, ⟨M, hM, rfl⟩, Finset.mem_union_right _ htM⟩
  · rintro ⟨w, ⟨M, hM, rfl⟩, ht⟩
    rcases Finset.mem_union.mp ht with hE | htM
    · exact .inl hE
    · exact .inr (hM.mem_group htM)

/-! ### One event -/

/-- The threads waiting on the condition variable, released or not. -/
def HasWaiting (cv : ConditionVariable) (t : RunnerId) : Prop :=
  t ∈ cv.policy.waitQueue ∨ t ∈ cv.policy.broadcastEligibleThreads

theorem perform_wait :
    cv.perform (.wait t location) = if cv.waiterCanExit t then cv.wait t location else none := rfl

theorem WellFormed.perform_wait_eq_none (hwf : cv.WellFormed) :
    cv.perform (.wait t location) = none ↔ cv.waiterCanExit t = false := by
  rw [perform_wait]
  split_ifs with h
  · have hsome : (cv.wait t location).isSome = true := by
      rw [wait_isSome_iff]
      simpa [waiterCanExit, hwf.noSpurious] using h
    simp [h, Option.isSome_iff_ne_none.mp hsome]
  · simpa using h

/-- A signal or a broadcast which finds nobody queued changes nothing, and does nothing in
the reference. -/
theorem WellFormed.represents_idle (hwf : cv.WellFormed) (hq : cv.policy.waitQueue = []) :
    (cv.Represents w' ↔ ∃ w, cv.Represents w ∧ WakeUpStep w .signal w') ∧
      (cv.Represents w' ↔ ∃ w, cv.Represents w ∧ WakeUpStep w (.broadcast p) w') := by
  simp only [hwf.represents_of_queue_empty hq, exists_eq_left, wakeUpStep_signal,
    wakeUpStep_broadcast]
  simp

/-- An event keeps the condition variable well-formed, and steps every state it stands for
in every possible way. -/
theorem WellFormed.perform {e : ConditionVariableEvent} (hwf : cv.WellFormed)
    (hnew : ∀ t location, e = .enqueue t location → ¬ cv.HasWaiting t)
    (h : cv.perform e = some newCv) :
    newCv.WellFormed ∧
      ∀ w', newCv.Represents w' ↔ ∃ w, cv.Represents w ∧ WakeUpStep w e w' := by
  cases e with
  | enqueue t location =>
    obtain ⟨ht, ht'⟩ := not_or.mp (hnew t location rfl)
    obtain rfl := Option.some.inj h
    exact ⟨hwf.enqueue ht ht', fun w' => hwf.represents_enqueue ht⟩
  | signal =>
    cases hw : cv.hasWaiters with
    | false =>
      obtain rfl : cv = newCv := by simpa [ConditionVariable.perform, hw] using h
      exact ⟨hwf, fun w' => (hwf.represents_idle (p := 0) (hasWaiters_eq_false_iff.mp hw)).1⟩
    | true =>
      obtain rfl : cv.signal = newCv := by simpa [ConditionVariable.perform, hw] using h
      have hq : cv.policy.waitQueue ≠ [] := fun hq => by
        simp [hasWaiters_eq_false_iff.mpr hq] at hw
      exact ⟨hwf.signal hq, fun w' => hwf.represents_signal hq⟩
  | broadcast executor =>
    cases hw : cv.hasWaiters with
    | false =>
      obtain rfl : cv = newCv := by simpa [ConditionVariable.perform, hw] using h
      exact ⟨hwf, fun w' => (hwf.represents_idle (hasWaiters_eq_false_iff.mp hw)).2⟩
    | true =>
      obtain rfl : cv.broadcast executor = newCv := by
        simpa [ConditionVariable.perform, hw] using h
      exact ⟨.broadcast, fun w' => hwf.represents_broadcast⟩
  | wait t location =>
    have hwait : cv.wait t location = some newCv := by
      rw [perform_wait] at h
      split_ifs at h
      exact h
    exact ⟨hwf.wait hwait, fun w' => hwf.represents_wait hwait⟩

/-- An event which the model refuses is impossible in every state the condition variable
stands for. -/
theorem WellFormed.not_wakeUpStep {e : ConditionVariableEvent} (hwf : cv.WellFormed)
    (h : cv.perform e = none) (hw : cv.Represents w) : ¬ WakeUpStep w e w' := by
  cases e with
  | enqueue t location => cases h
  | signal => cases h
  | broadcast executor => cases h
  | wait t location =>
    intro hstep
    obtain ⟨ht, -⟩ := wakeUpStep_wait.mp hstep
    have hexit := hwf.waiterCanExit_iff.mpr ⟨w, hw, ht⟩
    simp [hwf.perform_wait_eq_none.mp h] at hexit

/-- The threads waiting on the condition variable are those which fell asleep and have not
left since. -/
theorem WellFormed.hasWaiting_perform {e : ConditionVariableEvent}
    {es : List ConditionVariableEvent} (hwf : cv.WellFormed)
    (hes : ∀ u, cv.HasWaiting u ↔ Waiting u es) (h : cv.perform e = some newCv) (u : RunnerId) :
    newCv.HasWaiting u ↔ Waiting u (es ++ [e]) := by
  rw [Waiting, sinceLast_concat, ← Waiting, ← hes]
  cases e with
  | enqueue t location =>
    obtain rfl := Option.some.inj h
    simp only [HasWaiting, enqueueThread_waitQueue, enqueueThread_broadcastEligibleThreads,
      List.mem_append, List.mem_singleton, ConditionVariableEvent.enqueue.injEq, reduceCtorEq]
    simp [or_comm, or_left_comm, eq_comm]
  | signal =>
    have hsame : newCv.HasWaiting u ↔ cv.HasWaiting u := by
      obtain rfl := Option.some.inj h
      split_ifs <;> simp [HasWaiting]
    simp [hsame]
  | broadcast executor =>
    have hsame : newCv.HasWaiting u ↔ cv.HasWaiting u := by
      obtain rfl := Option.some.inj h
      split_ifs
      · simp [HasWaiting, hwf.broadcast_eligible, or_comm]
      · rfl
    simp [hsame]
  | wait t location =>
    have hwait : cv.wait t location = some newCv := by
      rw [perform_wait] at h
      split_ifs at h
      exact h
    obtain ⟨-, -, hqueue, -, -⟩ := wait_eq_some hwait
    have hleft : newCv.HasWaiting u ↔ u ≠ t ∧ cv.HasWaiting u := by
      unfold HasWaiting
      rw [hqueue, hwf.nodup.mem_erase_iff]
      rcases hwf.wait_cases hwait with ⟨hE, heligible, -⟩ | ⟨hE, -, heligible, -⟩
      · rw [heligible, Finset.mem_erase, ← and_or_left]
      · rw [heligible]
        have hut : u ∈ cv.policy.broadcastEligibleThreads → u ≠ t := fun hu h => hE (h ▸ hu)
        tauto
    rw [hleft]
    simp [eq_comm]

end ConditionVariable

open ConditionVariable

variable {es : List ConditionVariableEvent} {cv : ConditionVariable} {w : WakeUpState}

/-- After any accepted events the condition variable is well-formed, knows who is waiting,
and stands for exactly the states which the reference can reach by these events. -/
theorem wellFormed_of_accepted (hes : EnqueuesWhenNotWaiting es)
    (h : runFrom perform initialized es = some cv) :
    cv.WellFormed ∧ (∀ t, cv.HasWaiting t ↔ Waiting t es) ∧
      ∀ w, cv.Represents w ↔ WakeUpRun .initial es w := by
  refine runFrom_induction (P := fun es cv => EnqueuesWhenNotWaiting es → cv.WellFormed ∧
    (∀ t, cv.HasWaiting t ↔ Waiting t es) ∧ ∀ w, cv.Represents w ↔ WakeUpRun .initial es w)
    ?_ ?_ h hes
  · refine fun _ => ⟨wellFormed_initialized, fun t => ?_, fun w => ?_⟩
    · rw [Waiting, sinceLast_nil]
      exact iff_of_false (by simp [HasWaiting, initialized]) not_false
    · rw [represents_initialized, wakeUpRun_nil]
  · intro es cv e cv' _ ih hperform hes
    obtain ⟨hwf, hwaiting, hrep⟩ := ih hes.of_concat
    have hnew : ∀ t location, e = .enqueue t location → ¬ cv.HasWaiting t := by
      rintro t location rfl
      rw [hwaiting]
      exact hes es t location [] rfl
    obtain ⟨hwf', hrep'⟩ := hwf.perform hnew hperform
    refine ⟨hwf', hwf.hasWaiting_perform hwaiting hperform, fun w => ?_⟩
    rw [hrep', wakeUpRun_concat]
    simp only [hrep]

/-- **Wake-up semantics.** The model accepts a sequence of events exactly when some
resolution of the choices of the reference does. -/
theorem accepts_iff_exists_wakeUpRun (hes : EnqueuesWhenNotWaiting es) :
    Accepts es ↔ ∃ w, WakeUpRun .initial es w := by
  constructor
  · intro h
    obtain ⟨cv, hcv⟩ := Option.isSome_iff_exists.mp h
    obtain ⟨M, hM⟩ := exists_choice cv.groups
    exact ⟨_, ((wellFormed_of_accepted hes hcv).2.2 _).mp ⟨M, hM, rfl⟩⟩
  · -- the reference cannot take a step which the model refuses
    induction es using List.reverseRecOn with
    | nil => exact fun _ => rfl
    | append_singleton es e ih =>
      rintro ⟨w, hw⟩
      obtain ⟨w₁, hw₁, hstep⟩ := wakeUpRun_concat.mp hw
      obtain ⟨cv, hcv⟩ := Option.isSome_iff_exists.mp (ih hes.of_concat ⟨w₁, hw₁⟩)
      obtain ⟨hwf, -, hrep⟩ := wellFormed_of_accepted hes.of_concat hcv
      cases hperform : cv.perform e with
      | none => exact absurd hstep (hwf.not_wakeUpStep hperform ((hrep w₁).mpr hw₁))
      | some cv' =>
        exact Option.isSome_iff_exists.mpr ⟨cv', runFrom_concat_eq_some.mpr ⟨cv, hcv, hperform⟩⟩

/-- Two threads fall asleep, one signal arrives, and the second thread leaves. -/
theorem accepts_iff_exists_wakeUpRun_two :
    ∃ w, WakeUpRun .initial [.enqueue 1 64, .enqueue 2 64, .signal, .wait 2 64] w := by
  refine (accepts_iff_exists_wakeUpRun ?_).mp (by unfold Accepts; decide)
  intro pre tid location post heq
  rcases pre with _ | ⟨a, _ | ⟨b, pre⟩⟩
  · simp [Waiting]
  · obtain ⟨rfl, ⟨rfl, rfl⟩, -⟩ :
        .enqueue 1 64 = a ∧ ((2 : RunnerId) = tid ∧ (64 : Addr) = location) ∧ _ = post := by
      simpa using heq
    rw [Waiting, ← List.nil_append [ConditionVariableEvent.enqueue 1 64], sinceLast_concat]
    simp
  · have hmem : ConditionVariableEvent.enqueue tid location ∈
        [ConditionVariableEvent.signal, .wait 2 64] := by
      have h := congrArg (List.drop 2) heq
      simp only [List.drop_succ_cons, List.drop_zero, List.cons_append] at h
      exact h ▸ by simp
    simp at hmem

end McMini
