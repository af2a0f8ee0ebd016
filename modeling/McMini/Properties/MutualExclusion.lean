import McMini.Model.Execution

/-!
# Mutual exclusion

The owner recorded in a mutex is a summary of the history: the mutex is locked with owner
`p` exactly when the last transition by which `p` acquired it has not been followed by one
by which `p` released it. A runner acquires a mutex by locking it or by waking up from a
condition variable, and releases it by unlocking it or by falling asleep.

Initializing a mutex a second time forgets its holder, so the property is about runs which
initialize a mutex only before it is first locked.
-/

namespace McMini

open Foundation

/-- The mutex `i` is locked by `p` in the state `s`. -/
def LockedBy (s : State) (i : ObjId) (p : RunnerId) : Prop :=
  ∃ m, s.objectState i = some (.mutex m) ∧ m.isLockedBy p = true

/-- The history says that `p` holds the mutex `i`: the last transition by which `p`
acquired it has not been followed by one by which `p` released it. A mutex which is locked
in the initial state was acquired before. -/
def HoldsAfter (s₀ : State) (i : ObjId) (p : RunnerId) (tr : List Transition) : Prop :=
  SinceLast (fun t => t.executor = p ∧ t.Acquires i) (fun t => t.executor = p ∧ t.Releases i)
    (LockedBy s₀ i p) tr

/-- The mutex `i` was locked at some time up to the end of the history. -/
def LockedBefore (s₀ : State) (i : ObjId) (tr : List Transition) : Prop :=
  (∃ p, LockedBy s₀ i p) ∨ ∃ t ∈ tr, t.Acquires i

/-- No transition of the history initializes the mutex `i` after its first lock. -/
def NoInitAfterLock (s₀ : State) (i : ObjId) (tr : List Transition) : Prop :=
  ∀ pre t post, tr = pre ++ t :: post → t.op = .mutexInit i → ¬ LockedBefore s₀ i pre

section

variable {s₀ s : State} {i : ObjId} {p q : RunnerId} {tr : List Transition} {t : Transition}

theorem lockedBefore_concat :
    LockedBefore s₀ i (tr ++ [t]) ↔ LockedBefore s₀ i tr ∨ t.Acquires i := by
  simp only [LockedBefore, List.mem_append, List.mem_singleton, or_and_right, exists_or,
    exists_eq_left, or_assoc]

theorem NoInitAfterLock.of_append {tr' : List Transition}
    (h : NoInitAfterLock s₀ i (tr ++ tr')) : NoInitAfterLock s₀ i tr := by
  intro pre u post heq hu
  exact h pre u (post ++ tr') (by simp [heq]) hu

theorem NoInitAfterLock.not_lockedBefore (h : NoInitAfterLock s₀ i (tr ++ [t]))
    (ht : t.op = .mutexInit i) : ¬ LockedBefore s₀ i tr :=
  h tr t [] rfl ht

/-- The invariant behind mutual exclusion, for one mutex and one run. -/
structure MutexInvariant (s₀ : State) (i : ObjId) (m₀ : Mutex) (tr : List Transition)
    (m : Mutex) : Prop where
  holds_iff : ∀ p, m.isLockedBy p = true ↔ HoldsAfter s₀ i p tr
  lockedBefore : m.isLocked = true → LockedBefore s₀ i tr
  location : m.location = m₀.location

theorem MutexInvariant.init {m₀ : Mutex} (h : s₀.objectState i = some (.mutex m₀)) :
    MutexInvariant s₀ i m₀ [] m₀ where
  holds_iff p := by simp [HoldsAfter, LockedBy, h]
  lockedBefore hl := .inl ⟨m₀.owner, m₀, h, by simpa [Mutex.isLocked, Mutex.isLockedBy] using hl⟩
  location := rfl

theorem Transition.Acquires.not_releases (h : t.Acquires i) : ¬ t.Releases i := by
  rcases h with h | ⟨c, h⟩ <;> simp [Transition.Releases, h]

/-- Every step keeps the invariant, by cases on what it does to the mutex. -/
theorem MutexInvariant.step {m₀ m m' : Mutex} (inv : MutexInvariant s₀ i m₀ tr m)
    (hinit : NoInitAfterLock s₀ i (tr ++ [t])) (h : MutexEffect t i m m') :
    MutexInvariant s₀ i m₀ (tr ++ [t]) m' := by
  have concat : ∀ p, HoldsAfter s₀ i p (tr ++ [t]) ↔ (t.executor = p ∧ t.Acquires i) ∨
      ¬ (t.executor = p ∧ t.Releases i) ∧ HoldsAfter s₀ i p tr := fun p => sinceLast_concat
  have free : m.isLocked = false → ∀ p, ¬ HoldsAfter s₀ i p tr := by
    intro hfree p hp
    have hlocked := (Mutex.isLockedBy_iff.mp ((inv.holds_iff p).mpr hp)).1
    simp [Mutex.isLocked, hlocked] at hfree
  cases h with
  | unrelated hacq hrel hop =>
    refine ⟨fun p => ?_, fun hl => lockedBefore_concat.mpr (.inl (inv.lockedBefore hl)),
      inv.location⟩
    rw [concat, inv.holds_iff]
    simp [hacq, hrel]
  | init hop =>
    -- a mutex which was never locked has no holder to forget
    have hfree : m.isLocked = false := by
      by_contra hl
      exact hinit.not_lockedBefore hop (inv.lockedBefore (Bool.not_eq_false _ ▸ hl))
    refine ⟨fun p => ?_, fun hl => absurd hl (by simp [Mutex.released, Mutex.isLocked]),
      inv.location⟩
    rw [concat]
    have := free hfree p
    simp [Transition.Acquires, hop, this]
  | acquire hacq hfree =>
    refine ⟨fun p => ?_, fun _ => lockedBefore_concat.mpr (.inr hacq), inv.location⟩
    rw [concat, Mutex.acquiredBy_isLockedBy]
    have := free hfree p
    tauto
  | release hrel hheld =>
    refine ⟨fun p => ?_, fun hl => absurd hl (by simp [Mutex.released, Mutex.isLocked]),
      inv.location⟩
    rw [concat, Mutex.released_isLockedBy]
    -- another runner does not hold the mutex, since the executor does
    have other : HoldsAfter s₀ i p tr → t.executor = p := fun hp =>
      Mutex.isLockedBy_unique hheld ((inv.holds_iff p).mpr hp)
    have hacq : ¬ t.Acquires i := fun h => h.not_releases hrel
    simp only [Bool.false_eq_true, false_iff]
    tauto

/-- The invariant holds in every state of a run. -/
theorem mutexInvariant_of_run {m₀ : Mutex} (hm₀ : s₀.objectState i = some (.mutex m₀))
    (hrun : run s₀ tr = some s) (hinit : NoInitAfterLock s₀ i tr) :
    ∃ m, s.objectState i = some (.mutex m) ∧ MutexInvariant s₀ i m₀ tr m := by
  refine run_induction (P := fun tr s => NoInitAfterLock s₀ i tr →
    ∃ m, s.objectState i = some (.mutex m) ∧ MutexInvariant s₀ i m₀ tr m)
    (fun _ => ⟨m₀, hm₀, .init hm₀⟩) ?_ hrun hinit
  intro tr s t s' _ ih hstep hinit
  obtain ⟨m, hm, inv⟩ := ih hinit.of_append
  obtain ⟨m', hm', heffect⟩ := hstep.mutex hm
  exact ⟨m', hm', inv.step hinit heffect⟩

/-- A step after which `p` no longer holds the mutex is the release by `p`, unless it
initializes the mutex. -/
theorem released_by_holder {s' : State} (hstep : Step s t s') (hp : LockedBy s i p)
    (hp' : ¬ LockedBy s' i p) (hop : t.op ≠ .mutexInit i) : t.executor = p ∧ t.Releases i := by
  obtain ⟨m, hm, hheld⟩ := hp
  obtain ⟨m', hm', heffect⟩ := hstep.mutex hm
  cases heffect with
  | unrelated _ _ _ => exact absurd ⟨m, hm', hheld⟩ hp'
  | init h => exact absurd h hop
  | acquire _ hfree =>
    have := (Mutex.isLockedBy_iff.mp hheld).1
    simp [Mutex.isLocked, this] at hfree
  | release hrel hheld' => exact ⟨Mutex.isLockedBy_unique hheld' hheld, hrel⟩

/-- **Mutual exclusion.** In every state of a run which initializes the mutex only before
its first lock, the mutex is locked by `p` exactly when the history says that `p` holds it.
No two runners hold it, the next transition takes it from its holder only if it is the
holder's own release, and it stays at its location. -/
theorem mutual_exclusion {m₀ : Mutex} (hm₀ : s₀.objectState i = some (.mutex m₀))
    (hrun : run s₀ tr = some s) (hinit : NoInitAfterLock s₀ i tr) :
    (∀ p, LockedBy s i p ↔ HoldsAfter s₀ i p tr) ∧
    (∀ p q, HoldsAfter s₀ i p tr → HoldsAfter s₀ i q tr → p = q) ∧
    (∀ t s' p, fire t s = some s' → NoInitAfterLock s₀ i (tr ++ [t]) → LockedBy s i p →
      ¬ LockedBy s' i p → t.executor = p ∧ t.Releases i) ∧
    ∃ m, s.objectState i = some (.mutex m) ∧ m.location = m₀.location := by
  obtain ⟨m, hm, inv⟩ := mutexInvariant_of_run hm₀ hrun hinit
  have locked_iff : ∀ p, LockedBy s i p ↔ m.isLockedBy p = true := fun p => by
    simp [LockedBy, hm]
  refine ⟨fun p => (locked_iff p).trans (inv.holds_iff p), fun p q hp hq => ?_, ?_,
    m, hm, inv.location⟩
  · exact Mutex.isLockedBy_unique ((inv.holds_iff p).mpr hp) ((inv.holds_iff q).mpr hq)
  · intro t s' p hfire hinit' hp hp'
    refine released_by_holder (fire_eq_some_iff_step.mp hfire) hp hp' fun hop => ?_
    have hlocked := (Mutex.isLockedBy_iff.mp ((locked_iff p).mp hp)).1
    exact hinit'.not_lockedBefore hop (inv.lockedBefore (by simp [Mutex.isLocked, hlocked]))

end

/-- Two running runners and a free mutex. -/
private def twoRunners : State :=
  .ofRunnersAndObjects [⟨.running⟩, ⟨.running⟩] [.mutex ⟨.unlocked, 64, ridInvalid⟩]

/-- When one runner has locked and released the mutex and the other one has locked it, the other
one holds it, and nobody else. -/
theorem mutual_exclusion_twoRunners :
    ∃ s, run twoRunners [⟨0, .mutexLock 2⟩, ⟨0, .mutexUnlock 2⟩, ⟨1, .mutexLock 2⟩] = some s ∧
      LockedBy s 2 1 ∧ ¬ LockedBy s 2 0 := by
  refine ⟨_, rfl, ?_⟩
  have hm : twoRunners.objectState 2 = some (.mutex ⟨.unlocked, 64, ridInvalid⟩) := rfl
  have hinit : NoInitAfterLock twoRunners 2
      [⟨0, .mutexLock 2⟩, ⟨0, .mutexUnlock 2⟩, ⟨1, .mutexLock 2⟩] := by
    intro pre t post heq hop
    have hmem : t ∈ [(⟨0, .mutexLock 2⟩ : Transition), ⟨0, .mutexUnlock 2⟩, ⟨1, .mutexLock 2⟩] :=
      heq ▸ by simp
    simp only [List.mem_cons, List.not_mem_nil, or_false] at hmem
    rcases hmem with rfl | rfl | rfl <;> cases hop
  obtain ⟨hlocked, hunique, -⟩ := mutual_exclusion hm rfl hinit
  have hholds : HoldsAfter twoRunners 2 1
      [⟨0, .mutexLock 2⟩, ⟨0, .mutexUnlock 2⟩, ⟨1, .mutexLock 2⟩] :=
    .inl ⟨[⟨0, .mutexLock 2⟩, ⟨0, .mutexUnlock 2⟩], _, [], rfl, ⟨rfl, .inl rfl⟩, by simp⟩
  refine ⟨(hlocked 1).mpr hholds, fun hother => ?_⟩
  cases hunique 0 1 ((hlocked 0).mp hother) hholds

end McMini
