import McMini.Foundation.Progress

/-!
# A gate with a condition variable

Threads which have to wait until something has happened test a flag under a mutex, and wait on a
condition variable as long as it is not set. The thread which opens the gate sets the flag first,
and then broadcasts under the mutex. Waits may end for no reason.

No wake-up is lost: once the opener has broadcast, nobody waits (`Sound.woken`), and from every
state there is a way for all threads to get through (`exists_through`). This depends on the mutex
being free when the threads arrive, or held by one of them. If its owner is none of them, the gate
stays closed for everybody (`Jammed`).
-/

namespace McMini.Foundation.Gate

/-- Where a thread is which has to get through. -/
inductive Passer
  /-- It has some steps to take before it arrives. -/
  | away (steps : ℕ)
  /-- Before it gets the mutex. -/
  | locking
  /-- With the mutex, before it looks at the flag. -/
  | testing
  | waiting
  /-- Its wait has ended, and it takes the mutex back. -/
  | reacquiring
  /-- It has seen that the flag is set. -/
  | unlocking
  | through
  deriving DecidableEq, Repr

/-- Where the thread is which opens the gate. -/
inductive Opener
  | closed | locking | broadcasting | unlocking | done
  deriving DecidableEq, Repr

inductive Owner
  | passer (k : ℕ)
  | opener
  /-- None of the threads. -/
  | absent
  deriving DecidableEq, Repr

structure State where
  isOpen : Bool := false
  mutex : Option Owner := none
  passers : List Passer
  opener : Opener := .closed
  deriving DecidableEq, Repr

inductive Action
  | pass (k : ℕ)
  /-- A wait ends for no reason. -/
  | wake (k : ℕ)
  | openGate
  deriving DecidableEq, Repr

/-- The end of a wait. -/
def Passer.woken : Passer → Passer
  | .waiting => .reacquiring
  | p => p

namespace State

variable (g : State)

def moveTo (k : ℕ) (p : Passer) : State := { g with passers := g.passers.set k p }

/-- The thread gets the mutex if it is free. -/
def lockAndTest (k : ℕ) : Option State :=
  if g.mutex = none then some { g.moveTo k .testing with mutex := some (.passer k) } else none

end State

/-- What a step leads to, if it can be taken. -/
def step : Action → State → Option State
  | .pass k, g =>
    match g.passers[k]? with
    | some (.away (steps + 1)) => some (g.moveTo k (.away steps))
    | some (.away 0) => some (g.moveTo k .locking)
    | some .locking => g.lockAndTest k
    | some .testing =>
      if g.isOpen then some (g.moveTo k .unlocking)
      else some { g.moveTo k .waiting with mutex := none }
    | some .reacquiring => g.lockAndTest k
    | some .unlocking => some { g.moveTo k .through with mutex := none }
    | some .waiting | some .through | none => none
  | .wake k, g => if g.passers[k]? = some .waiting then some (g.moveTo k .reacquiring) else none
  | .openGate, g =>
    match g.opener with
    | .closed => some { g with isOpen := true, opener := .locking }
    | .locking =>
      if g.mutex = none then some { g with mutex := some .opener, opener := .broadcasting }
      else none
    | .broadcasting => some { g with passers := g.passers.map (·.woken), opener := .unlocking }
    | .unlocking => some { g with mutex := none, opener := .done }
    | .done => none

/-! ### What the gate keeps -/

/-- The thread is between taking the mutex and giving it up. -/
def Passer.HasMutex (p : Passer) : Prop := p = .testing ∨ p = .unlocking

def Opener.HasMutex (o : Opener) : Prop := o = .broadcasting ∨ o = .unlocking

/-- What holds of a gate which is used by its threads only. -/
structure Sound (g : State) : Prop where
  passer : ∀ k, g.mutex = some (.passer k) ↔ ∃ p, g.passers[k]? = some p ∧ p.HasMutex
  opener : g.mutex = some .opener ↔ g.opener.HasMutex
  present : g.mutex ≠ some .absent
  flag : g.isOpen = true ↔ g.opener ≠ .closed
  passed : ∀ (k : ℕ) (p : Passer), g.passers[k]? = some p → p = .unlocking ∨ p = .through →
    g.isOpen = true
  /-- The broadcast reaches everybody who waits. -/
  woken : g.opener = .unlocking ∨ g.opener = .done →
    ∀ k : ℕ, g.passers[k]? ≠ some Passer.waiting

/-- What a step does. -/
inductive Effect (g : State) : State → Prop
  /-- Steps outside of the mutex, on which the thread does not begin to wait. -/
  | approach {k : ℕ} {p p' : Passer} (hp : g.passers[k]? = some p)
      (h : (∃ n, p = .away (n + 1) ∧ p' = .away n) ∨ p = .away 0 ∧ p' = .locking ∨
        p = .waiting ∧ p' = .reacquiring) : Effect g (g.moveTo k p')
  | take {k : ℕ} {p : Passer} (hp : g.passers[k]? = some p)
      (h : p = .locking ∨ p = .reacquiring) (hfree : g.mutex = none) :
      Effect g { g.moveTo k .testing with mutex := some (.passer k) }
  | enter {k : ℕ} (hp : g.passers[k]? = some .testing) (hopen : g.isOpen = true) :
      Effect g (g.moveTo k .unlocking)
  | wait {k : ℕ} (hp : g.passers[k]? = some .testing) (hclosed : g.isOpen = false) :
      Effect g { g.moveTo k .waiting with mutex := none }
  | leave {k : ℕ} (hp : g.passers[k]? = some .unlocking) :
      Effect g { g.moveTo k .through with mutex := none }
  | setFlag (ho : g.opener = .closed) : Effect g { g with isOpen := true, opener := .locking }
  | lock (ho : g.opener = .locking) (hfree : g.mutex = none) :
      Effect g { g with mutex := some .opener, opener := .broadcasting }
  | broadcast (ho : g.opener = .broadcasting) :
      Effect g { g with passers := g.passers.map (·.woken), opener := .unlocking }
  | unlock (ho : g.opener = .unlocking) : Effect g { g with mutex := none, opener := .done }

variable {g g' : State} {a : Action} {k j : ℕ} {p p' : Passer}

theorem effect_of_step (h : step a g = some g') : Effect g g' := by
  cases a with
  | pass k =>
    cases hp : g.passers[k]? with
    | none =>
      simp only [step, hp] at h
      cases h
    | some p =>
      have htake : g.lockAndTest k = some g' → (p = .locking ∨ p = .reacquiring) → Effect g g' := by
        intro hlock hcase
        unfold State.lockAndTest at hlock
        split_ifs at hlock with hfree
        exact Option.some.inj hlock ▸ .take hp hcase hfree
      cases p with
      | away steps =>
        cases steps with
        | zero =>
          simp only [step, hp] at h
          exact Option.some.inj h ▸ .approach hp (.inr (.inl ⟨rfl, rfl⟩))
        | succ n =>
          simp only [step, hp] at h
          exact Option.some.inj h ▸ .approach hp (.inl ⟨n, rfl, rfl⟩)
      | locking =>
        simp only [step, hp] at h
        exact htake h (.inl rfl)
      | reacquiring =>
        simp only [step, hp] at h
        exact htake h (.inr rfl)
      | testing =>
        simp only [step, hp] at h
        split_ifs at h with hopen
        · exact Option.some.inj h ▸ .enter hp hopen
        · exact Option.some.inj h ▸ .wait hp (Bool.not_eq_true _ ▸ hopen)
      | unlocking =>
        simp only [step, hp] at h
        exact Option.some.inj h ▸ .leave hp
      | waiting | through =>
        simp only [step, hp] at h
        cases h
  | wake k =>
    simp only [step] at h
    split_ifs at h with hp
    exact Option.some.inj h ▸ .approach hp (.inr (.inr ⟨rfl, rfl⟩))
  | openGate =>
    simp only [step] at h
    cases ho : g.opener with
    | closed =>
      rw [ho] at h
      exact Option.some.inj h ▸ .setFlag ho
    | locking =>
      rw [ho] at h
      dsimp only at h
      split_ifs at h with hfree
      exact Option.some.inj h ▸ .lock ho hfree
    | broadcasting =>
      rw [ho] at h
      exact Option.some.inj h ▸ .broadcast ho
    | unlocking =>
      rw [ho] at h
      exact Option.some.inj h ▸ .unlock ho
    | done =>
      rw [ho] at h
      cases h

theorem getElem?_moveTo (hp : g.passers[k]? = some p) :
    (g.moveTo k p').passers[j]? = if j = k then some p' else g.passers[j]? := by
  have hlt : k < g.passers.length := (List.getElem?_eq_some_iff.mp hp).1
  unfold State.moveTo
  rw [List.getElem?_set]
  by_cases hj : j = k
  · rw [if_pos hj.symm, if_pos hlt, if_pos hj]
  · rw [if_neg fun h => hj h.symm, if_neg hj]

theorem getElem?_map_woken :
    (g.passers.map (·.woken))[j]? = some p ↔ ∃ q, g.passers[j]? = some q ∧ q.woken = p := by
  rw [List.getElem?_map, Option.map_eq_some_iff]

theorem Passer.hasMutex_woken : p.woken.HasMutex ↔ p.HasMutex := by
  cases p <;> simp [woken, HasMutex]

/-- Whose mutex it is, after a thread has moved. -/
theorem passer_moveTo {m : Option Owner} (h : Sound g) (hp : g.passers[k]? = some p)
    (hk : m = some (.passer k) ↔ p'.HasMutex)
    (hother : ∀ j, j ≠ k → (m = some (.passer j) ↔ g.mutex = some (.passer j))) :
    m = some (.passer j) ↔ ∃ q, (g.moveTo k p').passers[j]? = some q ∧ q.HasMutex := by
  rw [getElem?_moveTo hp]
  by_cases hj : j = k
  · rw [if_pos hj, hj, hk]
    simp
  · rw [if_neg hj, hother j hj, h.passer]

/-- A thread which moves behind the flag finds it set. -/
theorem passed_moveTo (h : Sound g) (hp : g.passers[k]? = some p)
    (hp' : p' = .unlocking ∨ p' = .through → g.isOpen = true) {q : Passer}
    (hq : (g.moveTo k p').passers[j]? = some q) (hcase : q = .unlocking ∨ q = .through) :
    g.isOpen = true := by
  rw [getElem?_moveTo hp] at hq
  split_ifs at hq
  · exact hp' ((Option.some.inj hq) ▸ hcase)
  · exact h.passed j q hq hcase

/-- Where nobody waits, nobody does after a thread has moved elsewhere. -/
theorem woken_moveTo (h : ∀ k : ℕ, g.passers[k]? ≠ some Passer.waiting)
    (hp : g.passers[k]? = some p) (hp' : p' ≠ .waiting) :
    (g.moveTo k p').passers[j]? ≠ some Passer.waiting := by
  rw [getElem?_moveTo hp]
  split_ifs
  · exact fun heq => hp' (Option.some.inj heq)
  · exact h j

/-- **A step keeps the gate sound.** -/
theorem Sound.step (h : Sound g) (hstep : step a g = some g') : Sound g' := by
  have hpasser : ∀ {j k}, some (Owner.passer k) = some (.passer j) ↔ j = k := by simp [eq_comm]
  cases effect_of_step hstep with
  | @approach k p p' hp hcase =>
    -- neither before nor after the step has the thread the mutex or passed the flag
    have hmutex : ¬ p.HasMutex ∧ ¬ p'.HasMutex ∧ p' ≠ .waiting ∧
        ¬ (p' = .unlocking ∨ p' = .through) := by
      rcases hcase with ⟨n, rfl, rfl⟩ | ⟨rfl, rfl⟩ | ⟨rfl, rfl⟩ <;> simp [Passer.HasMutex]
    obtain ⟨hold, hnew, hwaiting, hpassed⟩ := hmutex
    have hk : g.mutex = some (.passer k) ↔ p'.HasMutex := by
      rw [h.passer]
      simp [hp, hold, hnew]
    exact ⟨fun j => passer_moveTo h hp hk (fun _ _ => Iff.rfl), h.opener, h.present, h.flag,
      fun j q => passed_moveTo h hp (fun hcase => absurd hcase hpassed),
      fun hdone j => woken_moveTo (h.woken hdone) hp hwaiting⟩
  | @take k p hp hcase hfree =>
    have hopener : ¬ g.opener.HasMutex := by
      rw [← h.opener, hfree]
      simp
    refine ⟨fun j => ?_, ?_, ?_, h.flag, fun j q => ?_, fun hdone j => ?_⟩
    · refine passer_moveTo h hp (by simp [Passer.HasMutex]) fun j hj => ?_
      simp [hpasser, hj, hfree]
    · exact iff_of_false (by simp) hopener
    · simp
    · exact passed_moveTo h hp (fun hcase => by simp at hcase)
    · exact woken_moveTo (h.woken hdone) hp (by simp)
  | @enter k hp hopen =>
    have hk : g.mutex = some (.passer k) ↔ Passer.unlocking.HasMutex := by
      rw [h.passer]
      simp [hp, Passer.HasMutex]
    exact ⟨fun j => passer_moveTo h hp hk (fun _ _ => Iff.rfl), h.opener, h.present, h.flag,
      fun j q => passed_moveTo h hp (fun _ => hopen),
      fun hdone j => woken_moveTo (h.woken hdone) hp (by simp)⟩
  | @wait k hp hclosed =>
    have hmutex : g.mutex = some (.passer k) := (h.passer k).mpr ⟨_, hp, .inl rfl⟩
    have hopener : ¬ g.opener.HasMutex := by
      rw [← h.opener, hmutex]
      simp
    -- the thread has found the flag unset, so the broadcast is still to come
    have hnotopen : g.opener = .closed := by
      by_contra hne
      rw [h.flag.mpr hne] at hclosed
      cases hclosed
    refine ⟨fun j => ?_, ?_, ?_, h.flag, fun j q => ?_, fun hdone => ?_⟩
    · refine passer_moveTo h hp (by simp [Passer.HasMutex]) fun j hj => ?_
      simp [hmutex, hj.symm]
    · exact iff_of_false (by simp) hopener
    · simp
    · exact passed_moveTo h hp (fun hcase => by simp at hcase)
    · have hdone' : g.opener = .unlocking ∨ g.opener = .done := hdone
      rw [hnotopen] at hdone'
      simp at hdone'
  | @leave k hp =>
    -- it has been let through at the flag, which stays set
    have hmutex : g.mutex = some (.passer k) := (h.passer k).mpr ⟨_, hp, .inr rfl⟩
    have hopener : ¬ g.opener.HasMutex := by
      rw [← h.opener, hmutex]
      simp
    have hopen : g.isOpen = true := h.passed k _ hp (.inl rfl)
    refine ⟨fun j => ?_, ?_, ?_, h.flag, fun j q => ?_, fun hdone j => ?_⟩
    · refine passer_moveTo h hp (by simp [Passer.HasMutex]) fun j hj => ?_
      simp [hmutex, hj.symm]
    · exact iff_of_false (by simp) hopener
    · simp
    · exact passed_moveTo h hp (fun _ => hopen)
    · exact woken_moveTo (h.woken hdone) hp (by simp)
  | setFlag ho =>
    have hopener : g.mutex ≠ some .opener := by
      rw [ne_eq, h.opener, ho]
      simp [Opener.HasMutex]
    exact ⟨h.passer, by simp [hopener, Opener.HasMutex], h.present, by simp, fun _ _ _ _ => rfl,
      fun hdone => by simp at hdone⟩
  | lock ho hfree =>
    -- the opener takes a free mutex, so no thread is at the flag
    have hnone : ∀ (k : ℕ) (p : Passer), g.passers[k]? = some p → ¬ p.HasMutex := by
      intro k p hp hmutex
      have heq := (h.passer k).mpr ⟨p, hp, hmutex⟩
      rw [hfree] at heq
      cases heq
    have hopen := h.flag.mpr (by rw [ho]; simp)
    refine ⟨fun k => ?_, by simp [Opener.HasMutex], by simp, by simpa using hopen, h.passed,
      fun hdone => by simp at hdone⟩
    simpa using hnone k
  | broadcast ho =>
    -- a broadcast moves the waiting threads on to the mutex, which it does not touch
    have hmutex : g.mutex = some .opener := h.opener.mpr (.inl ho)
    have hopen := h.flag.mpr (by rw [ho]; simp)
    refine ⟨fun k => ?_, by simp [hmutex, Opener.HasMutex], h.present, by simpa using hopen,
      fun _ _ _ _ => hopen, fun _ k hwaiting => ?_⟩
    · rw [h.passer]
      constructor
      · rintro ⟨p, hp, hhas⟩
        exact ⟨p.woken, getElem?_map_woken.mpr ⟨p, hp, rfl⟩, Passer.hasMutex_woken.mpr hhas⟩
      · rintro ⟨p, hp, hhas⟩
        obtain ⟨q, hq, rfl⟩ := getElem?_map_woken.mp hp
        exact ⟨q, hq, Passer.hasMutex_woken.mp hhas⟩
    · obtain ⟨q, -, hq⟩ := getElem?_map_woken.mp hwaiting
      cases q <;> simp [Passer.woken] at hq
  | unlock ho =>
    have hmutex : g.mutex = some .opener := h.opener.mpr (.inr ho)
    have hopen := h.flag.mpr (by rw [ho]; simp)
    refine ⟨fun k => ?_, by simp [Opener.HasMutex], by simp, by simpa using hopen, h.passed,
      fun _ => h.woken (.inl ho)⟩
    have hpasser := h.passer k
    rw [hmutex] at hpasser
    simpa using hpasser

/-! ### Getting through -/

/-- The number of steps, at most, which the thread takes once the gate is open. -/
def Passer.left : Passer → ℕ
  | .away steps => steps + 4
  | .locking => 3
  | .testing => 2
  | .waiting => 4
  | .reacquiring => 3
  | .unlocking => 1
  | .through => 0

def Opener.left : Opener → ℕ
  | .closed => 4
  | .locking => 3
  | .broadcasting => 2
  | .unlocking => 1
  | .done => 0

def sumLeft : List Passer → ℕ
  | [] => 0
  | p :: ps => p.left + sumLeft ps

def State.left (g : State) : ℕ := sumLeft g.passers + g.opener.left

/-- All threads are through. -/
def State.Through (g : State) : Prop := ∀ p ∈ g.passers, p = .through

theorem sumLeft_set {ps : List Passer} (hp : ps[k]? = some p) :
    sumLeft (ps.set k p') + p.left = sumLeft ps + p'.left := by
  induction ps generalizing k with
  | nil => cases hp
  | cons q ps ih =>
    cases k with
    | zero =>
      obtain rfl := Option.some.inj hp
      simp only [List.set_cons_zero, sumLeft]
      omega
    | succ k =>
      have hrest := ih hp
      simp only [List.set_cons_succ, sumLeft]
      omega

theorem left_moveTo (hp : g.passers[k]? = some p) :
    (g.moveTo k p').left + p.left = g.left + p'.left := by
  have hsum : sumLeft (g.passers.set k p') + p.left = sumLeft g.passers + p'.left :=
    sumLeft_set hp
  show sumLeft (g.passers.set k p') + g.opener.left + p.left =
    sumLeft g.passers + g.opener.left + p'.left
  omega

theorem sumLeft_map_woken_le (ps : List Passer) : sumLeft (ps.map (·.woken)) ≤ sumLeft ps := by
  induction ps with
  | nil => exact Nat.le_refl _
  | cons p ps ih =>
    have hp : p.woken.left ≤ p.left := by cases p <;> simp [Passer.woken, Passer.left]
    exact Nat.add_le_add hp ih

/-- A thread which neither waits nor has to wait for the mutex brings itself closer. -/
theorem exists_pass (hopen : g.isOpen = true) (hp : g.passers[k]? = some p) (hw : p ≠ .waiting)
    (ht : p ≠ .through) (hfree : p = .locking ∨ p = .reacquiring → g.mutex = none) :
    ∃ g', step (.pass k) g = some g' ∧ g'.isOpen = true ∧ g'.left < g.left := by
  have closer : ∀ {p' : Passer}, p'.left < p.left → (g.moveTo k p').left < g.left := by
    intro p' hlt
    have hleft : (g.moveTo k p').left + p.left = g.left + p'.left := left_moveTo hp
    omega
  cases p with
  | waiting => exact absurd rfl hw
  | through => exact absurd rfl ht
  | away steps =>
    cases steps with
    | zero => exact ⟨g.moveTo k .locking, by simp only [step, hp], hopen, closer (by decide)⟩
    | succ n =>
      refine ⟨g.moveTo k (.away n), by simp only [step, hp], hopen, closer ?_⟩
      simp only [Passer.left]
      omega
  | locking =>
    refine ⟨{ g.moveTo k .testing with mutex := some (.passer k) }, ?_, hopen, closer (by decide)⟩
    simp only [step, hp, State.lockAndTest, if_pos (hfree (.inl rfl))]
  | reacquiring =>
    refine ⟨{ g.moveTo k .testing with mutex := some (.passer k) }, ?_, hopen, closer (by decide)⟩
    simp only [step, hp, State.lockAndTest, if_pos (hfree (.inr rfl))]
  | testing =>
    exact ⟨g.moveTo k .unlocking, by simp only [step, hp, if_pos hopen], hopen, closer (by decide)⟩
  | unlocking =>
    exact ⟨{ g.moveTo k .through with mutex := none }, by simp only [step, hp], hopen,
      closer (by decide)⟩

/-- So does the opener. -/
theorem exists_openGate (hopen : g.isOpen = true) (hclosed : g.opener ≠ .closed)
    (hdone : g.opener ≠ .done) (hfree : g.opener = .locking → g.mutex = none) :
    ∃ g', step .openGate g = some g' ∧ g'.isOpen = true ∧ g'.left < g.left := by
  cases ho : g.opener with
  | closed => exact absurd ho hclosed
  | done => exact absurd ho hdone
  | locking =>
    refine ⟨{ g with mutex := some .opener, opener := .broadcasting },
      by simp only [step, ho, if_pos (hfree ho)], hopen, ?_⟩
    simp [State.left, ho, Opener.left]
  | broadcasting =>
    refine ⟨{ g with passers := g.passers.map (·.woken), opener := .unlocking },
      by simp only [step, ho], hopen, ?_⟩
    have hle := sumLeft_map_woken_le g.passers
    simp only [State.left, ho, Opener.left]
    omega
  | unlocking =>
    refine ⟨{ g with mutex := none, opener := .done }, by simp only [step, ho], hopen, ?_⟩
    simp [State.left, ho, Opener.left]

/-- While the gate is open there is something to do which brings the threads closer, until they
are through. -/
theorem Sound.exists_step (h : Sound g) (hopen : g.isOpen = true) (hnot : ¬ g.Through) :
    ∃ a g', Gate.step a g = some g' ∧ g'.isOpen = true ∧ g'.left < g.left := by
  have hclosed : g.opener ≠ .closed := h.flag.mp hopen
  cases hmutex : g.mutex with
  | some owner =>
    -- the owner of the mutex goes on
    cases owner with
    | absent => exact absurd hmutex h.present
    | opener =>
      have hhas := h.opener.mp hmutex
      refine ⟨.openGate, exists_openGate hopen hclosed ?_ ?_⟩
      · rintro hdone
        simp [hdone, Opener.HasMutex] at hhas
      · rintro hlocking
        simp [hlocking, Opener.HasMutex] at hhas
    | passer k =>
      obtain ⟨p, hp, hhas⟩ := (h.passer k).mp hmutex
      refine ⟨.pass k, exists_pass hopen hp ?_ ?_ ?_⟩
      · rintro rfl
        simp [Passer.HasMutex] at hhas
      · rintro rfl
        simp [Passer.HasMutex] at hhas
      · rintro (rfl | rfl) <;> simp [Passer.HasMutex] at hhas
  | none =>
    -- a thread which is not through goes on, or waits for the broadcast
    unfold State.Through at hnot
    push Not at hnot
    obtain ⟨p, hmem, hthrough⟩ := hnot
    obtain ⟨k, hp⟩ := List.mem_iff_getElem?.mp hmem
    by_cases hwaiting : p = .waiting
    · subst hwaiting
      exact ⟨.openGate, exists_openGate hopen hclosed (fun hdone => h.woken (.inr hdone) k hp)
        fun _ => hmutex⟩
    · exact ⟨.pass k, exists_pass hopen hp hwaiting hthrough fun _ => hmutex⟩

/-- **Everybody gets through**, if the steps are taken. -/
theorem Sound.exists_through (h : Sound g) :
    ∃ actions g', runFrom Gate.step g actions = some g' ∧ g'.Through := by
  have hopened : ∀ g : State, Sound g → g.isOpen = true →
      ∃ actions g', runFrom Gate.step g actions = some g' ∧ g'.Through := by
    intro g h hopen
    obtain ⟨actions, g', hrun, -, hthrough⟩ := exists_run_of_descent State.left
      (P := fun g => Sound g ∧ g.isOpen = true) (G := State.Through) (fun g hg hnot => by
        obtain ⟨a, g', hstep, hopen', hlt⟩ := hg.1.exists_step hg.2 hnot
        exact ⟨a, g', hstep, ⟨hg.1.step hstep, hopen'⟩, hlt⟩) ⟨h, hopen⟩
    exact ⟨actions, g', hrun, hthrough⟩
  by_cases hopen : g.isOpen = true
  · exact hopened g h hopen
  · have ho : g.opener = .closed := by
      by_contra hne
      exact hopen (h.flag.mpr hne)
    have hstep : Gate.step .openGate g = some { g with isOpen := true, opener := .locking } := by
      simp only [Gate.step, ho]
    obtain ⟨actions, g', hrun, hthrough⟩ := hopened _ (h.step hstep) rfl
    exact ⟨.openGate :: actions, g', runFrom_cons_eq_some.mpr ⟨_, hstep, hrun⟩, hthrough⟩

/-! ### A gate whose mutex is lost -/

/-- The mutex belongs to nobody, and nobody has got past it. -/
structure Jammed (g : State) : Prop where
  lost : g.mutex = some .absent
  outside : ∀ p ∈ g.passers, p = .locking ∨ ∃ steps, p = .away steps
  opener : g.opener = .closed ∨ g.opener = .locking

theorem Jammed.step (h : Jammed g) (hstep : step a g = some g') : Jammed g' := by
  have houtside : ∀ {k : ℕ} {p : Passer}, g.passers[k]? = some p →
      p = .locking ∨ ∃ steps, p = .away steps :=
    fun hp => h.outside _ (List.mem_of_getElem? hp)
  cases effect_of_step hstep with
  | @approach k p p' hp hcase =>
    refine ⟨h.lost, fun q hq => ?_, h.opener⟩
    rcases List.mem_or_eq_of_mem_set hq with hmem | rfl
    · exact h.outside q hmem
    · rcases hcase with ⟨n, rfl, rfl⟩ | ⟨rfl, rfl⟩ | ⟨rfl, rfl⟩
      · exact .inr ⟨n, rfl⟩
      · exact .inl rfl
      · simpa using houtside hp
  | take _ _ hfree | lock _ hfree =>
    rw [h.lost] at hfree
    cases hfree
  | enter hp | wait hp | leave hp => simpa using houtside hp
  | setFlag ho => exact ⟨h.lost, h.outside, .inr rfl⟩
  | broadcast ho | unlock ho => simpa [ho] using h.opener

/-- **Nobody gets through a jammed gate.** -/
theorem Jammed.not_through (h : Jammed g) (hp : p ∈ g.passers) : p ≠ .through := by
  rintro rfl
  rcases h.outside _ hp with hlocking | ⟨steps, haway⟩
  · cases hlocking
  · cases haway

end McMini.Foundation.Gate
