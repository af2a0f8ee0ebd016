import McMini.Model.Execution

/-!
# The counter law of semaphores

A semaphore counts: in a run which starts with `sem_init` its count is the initial one, plus
the posts, minus the waits, and a wait is enabled exactly when the count is positive.

The count is an `int`. A post adds one to it, without a test for the largest value, and the
largest value plus one is the smallest: of the semaphore which could be waited for most often
every wait blocks. The law holds exactly in the runs in which no post meets the largest value
(`semaphore_counter_law`).
-/

namespace McMini

open Foundation

/-- The number of posts of the semaphore `i` in the history. -/
def posts (i : ObjId) (tr : List Transition) : ℕ := tr.countP (·.op = .semPost i)

/-- The number of completed waits for the semaphore `i` in the history. -/
def waits (i : ObjId) (tr : List Transition) : ℕ := tr.countP (·.op = .semWait i)

/-- `INT_MAX`, the largest count. -/
def intMax : ℤ := 2 ^ 31 - 1

/-- The signed count of the semaphore `i` is `n`. -/
def HasCount (s : State) (i : ObjId) (n : ℤ) : Prop :=
  ∃ sem, s.objectState i = some (.semaphore sem) ∧ sem.count.toInt = n

/-- What is expected of a semaphore with initial count `k`, in every state of the run `tr`. -/
structure CounterLaw (s₁ : State) (i : ObjId) (k : ℤ) (tr : List Transition) : Prop where
  count : ∀ pre s, pre <+: tr → run s₁ pre = some s →
    HasCount s i (k + posts i pre - waits i pre)
  nonneg : ∀ pre s n, pre <+: tr → run s₁ pre = some s → HasCount s i n → 0 ≤ n
  waitEnabled : ∀ pre s p n, pre <+: tr → run s₁ pre = some s → HasCount s i n →
    (Enabled ⟨p, .semWait i⟩ s ↔ s.Active p ∧ 0 < n)
  postKeeps : ∀ pre s q s' p, pre ++ [⟨q, .semPost i⟩] <+: tr → run s₁ pre = some s →
    fire ⟨q, .semPost i⟩ s = some s' → Enabled ⟨p, .semWait i⟩ s → Enabled ⟨p, .semWait i⟩ s'

/-- No post of the run is executed when the count is the largest one. -/
def PostsBelowMaximum (s₁ : State) (i : ObjId) (tr : List Transition) : Prop :=
  ∀ pre q s, pre ++ [⟨q, .semPost i⟩] <+: tr → run s₁ pre = some s → ¬ HasCount s i intMax

section

variable {s₀ s₁ s s' : State} {i : ObjId} {p q : RunnerId} {t : Transition}
  {tr : List Transition} {n m k : ℤ} {sem : Semaphore}

/-! ### Thirty-two bits -/

private theorem toInt_one : (1 : BitVec 32).toInt = 1 := rfl

/-- Adding one adds one, except to the largest count. -/
theorem toInt_add_one {x : BitVec 32} (h : x.toInt ≠ intMax) : (x + 1).toInt = x.toInt + 1 := by
  have hle := BitVec.le_toInt x
  have hlt := x.toInt_lt
  rw [intMax] at h
  rw [BitVec.toInt_add, toInt_one, Int.bmod_eq_of_le] <;> omega

/-- One more than the largest count is the smallest. -/
theorem toInt_add_one_of_intMax {x : BitVec 32} (h : x.toInt = intMax) :
    (x + 1).toInt = -2 ^ 31 := by
  rw [BitVec.toInt_add, toInt_one, h]
  decide

/-- Subtracting one subtracts one from a positive count. -/
theorem toInt_sub_one {x : BitVec 32} (h : 0 < x.toInt) : (x - 1).toInt = x.toInt - 1 := by
  have hlt := x.toInt_lt
  rw [BitVec.toInt_sub, toInt_one, Int.bmod_eq_of_le] <;> omega

/-! ### Counting along a run -/

theorem HasCount.unique (hn : HasCount s i n) (hm : HasCount s i m) : n = m := by
  obtain ⟨sem, hsem, rfl⟩ := hn
  obtain ⟨sem', hsem', rfl⟩ := hm
  rw [hsem, Option.some.injEq, VisibleObjectState.semaphore.injEq] at hsem'
  rw [hsem']

theorem posts_concat :
    (posts i (tr ++ [t]) : ℤ) = posts i tr + if t.op = .semPost i then 1 else 0 := by
  by_cases h : t.op = .semPost i <;> simp [posts, List.countP_append, h]

theorem waits_concat :
    (waits i (tr ++ [t]) : ℤ) = waits i tr + if t.op = .semWait i then 1 else 0 := by
  by_cases h : t.op = .semWait i <;> simp [waits, List.countP_append, h]

/-- A wait is enabled for the active runners when the count is positive. -/
theorem enabled_semWait_iff (h : HasCount s i n) :
    Enabled ⟨p, .semWait i⟩ s ↔ s.Active p ∧ 0 < n := by
  obtain ⟨sem, hsem, rfl⟩ := h
  rw [enabled_iff_step]
  constructor
  · rintro ⟨s', hstep⟩
    refine ⟨hstep.active, ?_⟩
    obtain ⟨sem', -, heffect⟩ := hstep.semaphore hsem
    cases heffect with
    | unrelated _ _ hop => exact absurd rfl hop
    | init hop => cases hop
    | post hop => cases hop
    | wait _ hblock => simpa [Semaphore.willBlock] using hblock
  · rintro ⟨hactive, hpos⟩
    exact ⟨_, .semWait hactive hsem (by simpa [Semaphore.willBlock] using hpos)⟩

/-- A step which does not initialize the semaphore counts, unless it posts the semaphore at
its largest count. -/
theorem HasCount.step (h : HasCount s i n) (hstep : Step s t s')
    (hinit : ∀ k, t.op ≠ .semInit i k) (hmax : t.op = .semPost i → n ≠ intMax) :
    HasCount s' i (n + (if t.op = .semPost i then 1 else 0) -
      if t.op = .semWait i then 1 else 0) := by
  obtain ⟨sem, hsem, rfl⟩ := h
  obtain ⟨sem', hsem', heffect⟩ := hstep.semaphore hsem
  refine ⟨sem', hsem', ?_⟩
  cases heffect with
  | unrelated _ hpost hwait => simp [hpost, hwait]
  | init hop => exact absurd hop (hinit _)
  | post hop =>
    rw [if_pos hop, if_neg (by simp [hop]), sub_zero]
    exact toInt_add_one (hmax hop)
  | wait hop hblock =>
    rw [if_neg (by simp [hop]), if_pos hop, add_zero]
    exact toInt_sub_one (by simpa [Semaphore.willBlock] using hblock)

/-- A post at the largest count leaves the smallest. -/
theorem HasCount.post_intMax (h : HasCount s i intMax)
    (hstep : Step s ⟨q, .semPost i⟩ s') : HasCount s' i (-2 ^ 31) := by
  obtain ⟨sem, hsem, hmax⟩ := h
  obtain ⟨sem', hsem', heffect⟩ := hstep.semaphore hsem
  refine ⟨sem', hsem', ?_⟩
  cases heffect with
  | unrelated _ hop _ => exact absurd rfl hop
  | init hop => cases hop
  | post _ => exact toInt_add_one_of_intMax hmax
  | wait hop _ => cases hop

theorem PostsBelowMaximum.of_prefix {pre : List Transition} (h : PostsBelowMaximum s₁ i tr)
    (hpre : pre <+: tr) : PostsBelowMaximum s₁ i pre :=
  fun pre' q s hpost hrun => h pre' q s (hpost.trans hpre) hrun

/-- Posts below the largest count and waits count, and the count never gets negative. -/
theorem hasCount_of_run (hk : 0 ≤ k) (hcount : HasCount s₁ i k) (hrun : run s₁ tr = some s)
    (hinit : ∀ t ∈ tr, ∀ n, t.op ≠ .semInit i n) (hmax : PostsBelowMaximum s₁ i tr) :
    HasCount s i (k + posts i tr - waits i tr) ∧ 0 ≤ k + posts i tr - waits i tr := by
  refine run_induction (P := fun tr s => (∀ t ∈ tr, ∀ n, t.op ≠ .semInit i n) →
    PostsBelowMaximum s₁ i tr →
    HasCount s i (k + posts i tr - waits i tr) ∧ 0 ≤ k + posts i tr - waits i tr)
    (fun _ _ => ⟨by simpa [posts, waits] using hcount, by simpa [posts, waits] using hk⟩)
    ?_ hrun hinit hmax
  intro tr s t s' hrun ih hstep hinit hmax
  obtain ⟨hn, hnonneg⟩ := ih (fun u hu => hinit u (by simp [hu]))
    (hmax.of_prefix (List.prefix_append _ _))
  have hbelow : t.op = .semPost i → k + posts i tr - waits i tr ≠ intMax := by
    rintro hop heq
    obtain ⟨q, op⟩ := t
    obtain rfl : op = .semPost i := hop
    exact hmax tr q s List.prefix_rfl hrun (heq ▸ hn)
  have hn' := hn.step hstep (hinit t (by simp)) hbelow
  rw [posts_concat, waits_concat]
  have hregroup : k + (posts i tr + if t.op = .semPost i then 1 else 0) -
      (waits i tr + if t.op = .semWait i then 1 else 0) =
      k + posts i tr - waits i tr + (if t.op = .semPost i then 1 else 0) -
        if t.op = .semWait i then 1 else 0 := by omega
  rw [hregroup]
  refine ⟨hn', ?_⟩
  by_cases hwait : t.op = .semWait i
  · -- a completed wait has found a positive count
    have hpos : 0 < k + posts i tr - waits i tr := by
      obtain ⟨q, op⟩ := t
      obtain rfl : op = .semWait i := hwait
      exact ((enabled_semWait_iff hn).mp (enabled_iff_step.mpr ⟨s', hstep⟩)).2
    rw [if_neg (by simp [hwait]), if_pos hwait]
    omega
  · rw [if_neg hwait]
    split_ifs <;> omega

/-- **The counter law of semaphores.** After an initialization with a count from `0` to
`INT_MAX`, the count is at all times the initial one plus the posts minus the completed waits,
never negative, positive exactly when a wait is enabled, and no post blocks a wait: if and only
if no post is executed when the count is `INT_MAX`. -/
theorem semaphore_counter_law {k : BitVec 32} (hk : 0 ≤ k.toInt)
    (hinit : fire ⟨p, .semInit i k⟩ s₀ = some s₁) (hrun : run s₁ tr = some s)
    (hnoinit : ∀ t ∈ tr, ∀ n, t.op ≠ .semInit i n) :
    CounterLaw s₁ i k.toInt tr ↔ PostsBelowMaximum s₁ i tr := by
  have hcount : HasCount s₁ i k.toInt := by
    cases fire_eq_some_iff_step.mp hinit with
    | semInit hactive hsem => exact ⟨_, State.setObjectState_self, rfl⟩
  have split : ∀ {pre u}, pre ++ [u] <+: tr → ∀ {s}, run s₁ pre = some s →
      ∃ s', fire u s = some s' := by
    rintro pre u ⟨post, rfl⟩ s hpre
    obtain ⟨s', hs', -⟩ := run_append_eq_some.mp hrun
    obtain ⟨s'', hs'', hfire⟩ := run_concat_eq_some.mp hs'
    rw [hpre, Option.some.injEq] at hs''
    exact ⟨s', hs'' ▸ hfire⟩
  constructor
  · intro law pre q s hpost hpre hmax
    obtain ⟨s', hfire⟩ := split hpost hpre
    have hneg := hmax.post_intMax (fire_eq_some_iff_step.mp hfire)
    have := law.nonneg _ s' _ hpost (run_concat_eq_some.mpr ⟨s, hpre, hfire⟩) hneg
    omega
  · intro hmax
    have law : ∀ {pre s}, pre <+: tr → run s₁ pre = some s →
        HasCount s i (k.toInt + posts i pre - waits i pre) ∧
          0 ≤ k.toInt + posts i pre - waits i pre := fun hpre hs =>
      hasCount_of_run hk hcount hs (fun u hu => hnoinit u (hpre.subset hu)) (hmax.of_prefix hpre)
    refine ⟨fun pre s hpre hs => (law hpre hs).1, fun pre s n hpre hs hn => ?_,
      fun pre s p n hpre hs hn => enabled_semWait_iff hn, ?_⟩
    · rw [hn.unique (law hpre hs).1]
      exact (law hpre hs).2
    · intro pre s q s' p hpost hs hfire henabled
      obtain ⟨hn, hnonneg⟩ := law ((List.prefix_append _ _).trans hpost) hs
      have hstep := fire_eq_some_iff_step.mp hfire
      have hn' := hn.step hstep (by simp) fun _ heq => hmax pre q s hpost hs (heq ▸ hn)
      rw [if_pos rfl, if_neg (by simp), sub_zero] at hn'
      refine (enabled_semWait_iff hn').mpr ⟨?_, by omega⟩
      cases hstep with
      | semPost _ hsem =>
        exact ((enabled_semWait_iff hn).mp henabled).1.setObjectState hsem (by simp)

end

/-- One running runner and one semaphore. -/
private def oneSemaphore : State := .ofRunnersAndObjects [⟨.running⟩] [.semaphore {}]

/-- The semaphore after its initialization with the count `k`. -/
private theorem init_oneSemaphore (k : BitVec 32) : fire ⟨0, .semInit 1 k⟩ oneSemaphore =
    some (oneSemaphore.setObjectState 1 (.semaphore (.ofCount k))) := by
  have hsem : oneSemaphore.objectState 1 = some (.semaphore {}) := rfl
  exact fire_eq_some_iff_step.mpr (.semInit ⟨0, rfl, rfl⟩ hsem)

/-- A semaphore with initial count `5` is posted and waited for. -/
theorem semaphore_counter_law_postWait :
    ∃ s₁ s, fire ⟨0, .semInit 1 5⟩ oneSemaphore = some s₁ ∧
      run s₁ [⟨0, .semPost 1⟩, ⟨0, .semWait 1⟩] = some s ∧
      CounterLaw s₁ 1 5 [⟨0, .semPost 1⟩, ⟨0, .semWait 1⟩] := by
  have hinit := init_oneSemaphore 5
  obtain ⟨s, hs⟩ := Option.isSome_iff_exists.mp (show (run (oneSemaphore.setObjectState 1
    (.semaphore (.ofCount 5))) [⟨0, .semPost 1⟩, ⟨0, .semWait 1⟩]).isSome = true by rfl)
  refine ⟨_, s, hinit, hs, (semaphore_counter_law (by decide) hinit hs (by simp)).mpr ?_⟩
  intro pre q s hpost hrun hmax
  obtain rfl : pre = [] := by
    obtain ⟨post, heq⟩ := hpost
    rcases pre with _ | ⟨t, _ | ⟨u, pre⟩⟩
    · rfl
    · simp at heq
    · simp at heq
  obtain rfl := Option.some.inj hrun
  have hfive : HasCount (oneSemaphore.setObjectState 1 (.semaphore (.ofCount 5))) 1 5 :=
    ⟨_, State.setObjectState_self, rfl⟩
  exact absurd (hmax.unique hfive) (by decide)

/-- A semaphore with initial count `INT_MAX` is posted: its count is then negative, and it can
no longer be waited for. -/
theorem post_at_intMax :
    ∃ s₁ s, fire ⟨0, .semInit 1 (.ofInt 32 intMax)⟩ oneSemaphore = some s₁ ∧
      run s₁ [⟨0, .semPost 1⟩] = some s ∧ Enabled ⟨0, .semWait 1⟩ s₁ ∧
      ¬ Enabled ⟨0, .semWait 1⟩ s ∧ HasCount s 1 (-2 ^ 31) ∧
      ¬ CounterLaw s₁ 1 intMax [⟨0, .semPost 1⟩] := by
  refine ⟨_, _, init_oneSemaphore _, rfl, by decide, by decide, ⟨_, rfl, by decide⟩, fun law => ?_⟩
  have hnonneg := law.nonneg _ _ (-2 ^ 31) List.prefix_rfl rfl ⟨_, rfl, by decide⟩
  omega

end McMini
