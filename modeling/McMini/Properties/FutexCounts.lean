import Mathlib.Algebra.Group.Nat.Defs
import McMini.RealWorld.FutexWord

/-!
# The futex word counts, and no wake-up is lost

**The count.** The word is the number of posts since the last initialisation less the number of
waits which have completed since then, modulo `2 ^ 32`: an addition to the word wraps, a
subtraction never does.

**No lost wake-up.** While somebody sleeps the word is covered (`Covered`): for each unit of it
there is a thread of its own which is awake in the loop of `mc_raw_sem_wait`, or which has yet
to call `FUTEX_WAKE`. A unit is taken by such a thread, a post which adds one adds its own
`FUTEX_WAKE`, and that call hands the role over to the thread which it wakes.
-/

namespace McMini.FutexWord

open Foundation

variable {ι : Type*} [DecidableEq ι] {s s' : State ι} {i j : ι} {p : Pc}

/-- In the loop of `mc_raw_sem_wait`. -/
def Pc.InLoop : Pc → Prop
  | .loading | .exchanging _ | .futexWait => True
  | _ => False

/-- In the loop, or with a call of `FUTEX_WAKE` still to do. -/
def Pc.Busy (p : Pc) : Prop := p.InLoop ∨ p = .waking

/-- For each unit of the word there is a thread which is awake and busy. -/
def Covered (s : State ι) : Prop :=
  ∃ t : Finset ι, s.word.toNat ≤ t.card ∧ ∀ i ∈ t, i ∉ s.sleepers ∧ (s.pc i).Busy

/-- What holds at every moment. -/
structure Sound (s : State ι) : Prop where
  waits_le : s.waits ≤ s.posts
  word_eq : s.word.toNat = (s.posts - s.waits) % 2 ^ 32
  /-- A value which a thread is about to exchange was positive when it was loaded. -/
  loaded_pos : ∀ i cur, s.pc i = .exchanging cur → 0 < cur
  covered : s.sleepers.Nonempty → Covered s

theorem awakePc_eq_some : s.awakePc i = some p ↔ i ∉ s.sleepers ∧ s.pc i = p := by
  simp [State.awakePc]

theorem goTo_pc_self : (s.goTo i p).pc i = p := Function.update_self ..

theorem goTo_pc_of_ne (h : j ≠ i) : (s.goTo i p).pc j = s.pc j := Function.update_of_ne h ..

theorem busy_afterLoad (cur : BitVec 32) : (afterLoad cur).Busy := by
  rw [afterLoad]
  split
  · exact .inl trivial
  · exact .inl trivial

theorem busy_loading : Pc.loading.Busy := .inl trivial

theorem not_busy_returned (rc : ℤ) : ¬ (Pc.returned rc).Busy := by
  rintro (h | h)
  · exact h
  · cases h

theorem not_busy_adding : ¬ Pc.adding.Busy := by
  rintro (h | h)
  · exact h
  · cases h

/-- The kinds of steps: a thread goes on without the word, one takes a unit, one falls asleep
while there is no unit, one returns from `FUTEX_WAIT`, one adds a unit, one wakes another or
finds nobody to wake, and the word is initialised. -/
inductive Move (s : State ι) : State ι → Prop
  | goOn (i : ι) (p : Pc) (hpc : (s.pc i).Busy → p.Busy)
      (hloaded : ∀ cur, p = .exchanging cur → 0 < cur) : Move s (s.goTo i p)
  | take (i : ι) (hpc : s.pc i = .exchanging s.word) : Move s
      { s.goTo i (.returned 0) with word := s.word - 1, waits := s.waits + 1 }
  | sleep (i : ι) (hword : s.word = 0) : Move s { s with sleepers := insert i s.sleepers }
  | awaken (i : ι) (rc : ℤ) (errno : Errno) (h : afterFutexWait rc errno = .loading) :
      Move s (s.awaken i rc errno)
  | add (i : ι) (hi : i ∉ s.sleepers) (hpc : s.pc i = .adding) : Move s
      { s.goTo i .waking with word := s.word + 1, posts := s.posts + 1 }
  | wakeNobody (i : ι) (h : s.sleepers = ∅) : Move s (s.goTo i (.returned 0))
  | wake (i j : ι) (hi : i ∉ s.sleepers) (hj : j ∈ s.sleepers) :
      Move s ((s.awaken j 0 .zero).goTo i (.returned 0))
  | init : Move s { s with word := 0, posts := 0, waits := 0 }

theorem step_move {a : Action ι} (h : step a s = some s') : Move s s' := by
  cases a with
  | callWait i =>
    rw [step] at h
    split at h
    · rw [← Option.some.inj h]
      exact .goOn i .loading (fun _ => busy_loading) (by simp)
    · cases h
  | callPost i =>
    rw [step] at h
    split at h
    next rc hpc =>
      rw [← Option.some.inj h]
      refine .goOn i .adding (fun hbusy => ?_) (by simp)
      -- the thread has returned, so it is not busy
      rw [(awakePc_eq_some.mp hpc).2] at hbusy
      exact absurd hbusy (not_busy_returned rc)
    · cases h
  | load i =>
    rw [step] at h
    split at h
    · rw [← Option.some.inj h]
      refine .goOn i _ (fun _ => busy_afterLoad s.word) fun cur hcur => ?_
      rw [afterLoad] at hcur
      split_ifs at hcur with hpos
      -- the exchange is tried for a positive word only
      exact Pc.exchanging.inj hcur ▸ hpos
    · cases h
  | compareExchange i =>
    rw [step] at h
    split at h
    next cur hpc =>
      split_ifs at h with hword
      · subst hword
        rw [← Option.some.inj h]
        -- the exchange succeeds
        exact .take i (awakePc_eq_some.mp hpc).2
      · rw [← Option.some.inj h]
        -- the word has changed, and is loaded again
        exact .goOn i .loading (fun _ => busy_loading) (by simp)
    · cases h
  | futexWait i =>
    rw [step] at h
    split at h
    · split_ifs at h with hword
      · rw [← Option.some.inj h]
        -- the kernel looks at the word once more before the thread sleeps
        exact .sleep i hword
      · rw [← Option.some.inj h]
        exact .goOn i .loading (fun _ => busy_loading) (by simp)
    · cases h
  | interrupt i =>
    rw [step] at h
    split_ifs at h
    rw [← Option.some.inj h]
    exact .awaken i (-1) .eintr rfl
  | wakeSpuriously i =>
    rw [step] at h
    split_ifs at h
    rw [← Option.some.inj h]
    exact .awaken i 0 .zero rfl
  | fetchAdd i =>
    rw [step] at h
    split at h
    next hpc =>
      rw [← Option.some.inj h]
      exact .add i (awakePc_eq_some.mp hpc).1 (awakePc_eq_some.mp hpc).2
    · cases h
  | futexWake i sleeper =>
    cases sleeper with
    | none =>
      rw [step] at h
      split at h
      · split_ifs at h with hnobody
        rw [← Option.some.inj h]
        exact .wakeNobody i hnobody
      · cases h
    | some j =>
      rw [step] at h
      split at h
      next hpc =>
        split_ifs at h with hj
        rw [← Option.some.inj h]
        exact .wake i j (awakePc_eq_some.mp hpc).1 hj
      · cases h
  | init =>
    rw [← Option.some.inj h]
    exact .init

/-! ### The cover -/

/-- A thread which goes on leaves the word covered, unless it stops being busy. -/
theorem Covered.goTo (h : Covered s) (hpc : (s.pc i).Busy → p.Busy) : Covered (s.goTo i p) := by
  obtain ⟨t, hcard, ht⟩ := h
  refine ⟨t, hcard, fun j hj => ⟨(ht j hj).1, ?_⟩⟩
  by_cases hji : j = i
  · subst hji
    rw [goTo_pc_self]
    exact hpc (ht j hj).2
  · rw [goTo_pc_of_ne hji]
    exact (ht j hj).2

theorem Covered.awaken {rc : ℤ} {errno : Errno} (h : Covered s)
    (hloading : afterFutexWait rc errno = .loading) : Covered (s.awaken i rc errno) := by
  obtain ⟨t, hcard, ht⟩ := h.goTo (i := i) (p := afterFutexWait rc errno)
    fun _ => hloading ▸ busy_loading
  exact ⟨t, hcard, fun j hj => ⟨fun hmem => (ht j hj).1 (Finset.mem_of_mem_erase hmem),
    (ht j hj).2⟩⟩

/-- The thread which takes a unit was one of those which cover it. -/
theorem Covered.take (h : Covered s) (hword : 0 < s.word) : Covered
    { s.goTo i (.returned 0) with word := s.word - 1, waits := s.waits + 1 } := by
  obtain ⟨t, hcard, ht⟩ := h
  refine ⟨t.erase i, ?_, fun j hj => ?_⟩
  · have hsub : (s.word - 1).toNat = s.word.toNat - 1 := by bv_omega
    have herase := Finset.pred_card_le_card_erase (s := t) (a := i)
    change (s.word - 1).toNat ≤ _
    omega
  · obtain ⟨hji, hmem⟩ := Finset.mem_erase.mp hj
    refine ⟨(ht j hmem).1, ?_⟩
    change ((s.goTo i (.returned 0)).pc j).Busy
    rw [goTo_pc_of_ne hji]
    exact (ht j hmem).2

/-- The post which has added a unit covers it. -/
theorem Covered.add (h : Covered s) (hi : i ∉ s.sleepers) (hpc : s.pc i = .adding) : Covered
    { s.goTo i .waking with word := s.word + 1, posts := s.posts + 1 } := by
  obtain ⟨t, hcard, ht⟩ := h
  have hnew : i ∉ t := fun hmem => not_busy_adding (hpc ▸ (ht i hmem).2)
  refine ⟨insert i t, ?_, fun j hj => ?_⟩
  · rw [Finset.card_insert_of_notMem hnew]
    have hadd : (s.word + 1).toNat ≤ s.word.toNat + 1 := by bv_omega
    exact hadd.trans (Nat.add_le_add_right hcard 1)
  · change j ∉ s.sleepers ∧ ((s.goTo i .waking).pc j).Busy
    rcases Finset.mem_insert.mp hj with rfl | hmem
    · rw [goTo_pc_self]
      exact ⟨hi, .inr rfl⟩
    · have hji : j ≠ i := fun heq => hnew (heq ▸ hmem)
      rw [goTo_pc_of_ne hji]
      exact ht j hmem

/-- The thread which is woken covers what the post has covered. -/
theorem Covered.wake (h : Covered s) (hi : i ∉ s.sleepers) (hj : j ∈ s.sleepers) :
    Covered ((s.awaken j 0 .zero).goTo i (.returned 0)) := by
  obtain ⟨t, hcard, ht⟩ := h
  have hij : j ≠ i := fun heq => hi (heq ▸ hj)
  have hnew : j ∉ t.erase i := fun hmem => (ht j (Finset.mem_of_mem_erase hmem)).1 hj
  refine ⟨insert j (t.erase i), ?_, fun k hk => ?_⟩
  · rw [Finset.card_insert_of_notMem hnew]
    have herase := Finset.pred_card_le_card_erase (s := t) (a := i)
    change s.word.toNat ≤ _
    omega
  · have hawake : (s.awaken j 0 .zero).pc j = .loading := goTo_pc_self
    rcases Finset.mem_insert.mp hk with rfl | hmem
    · rw [goTo_pc_of_ne hij, hawake]
      exact ⟨Finset.notMem_erase k s.sleepers, busy_loading⟩
    · obtain ⟨hki, hkt⟩ := Finset.mem_erase.mp hmem
      have hkj : k ≠ j := fun heq => (ht k hkt).1 (heq ▸ hj)
      have hsame : (s.awaken j 0 .zero).pc k = s.pc k := goTo_pc_of_ne hkj
      rw [goTo_pc_of_ne hki, hsame]
      exact ⟨fun h => (ht k hkt).1 (Finset.mem_of_mem_erase h), (ht k hkt).2⟩

omit [DecidableEq ι] in
/-- A word without units is covered by nobody. -/
theorem covered_of_word_eq_zero (h : s.word = 0) : Covered s :=
  ⟨∅, by simp [h], by simp⟩

/-! ### The invariant -/

omit [DecidableEq ι] in
theorem sound_start : Sound (start : State ι) where
  waits_le := Nat.le_refl _
  word_eq := rfl
  loaded_pos := by
    intro i cur h
    cases h
  covered h := absurd h Finset.not_nonempty_empty

/-- What is about to be exchanged after a thread has gone on. -/
theorem Sound.loaded_goTo (h : Sound s) (hloaded : ∀ cur, p = .exchanging cur → 0 < cur)
    (cur : BitVec 32) (hcur : (s.goTo i p).pc j = .exchanging cur) : 0 < cur := by
  by_cases hji : j = i
  · subst hji
    rw [goTo_pc_self] at hcur
    exact hloaded cur hcur
  · rw [goTo_pc_of_ne hji] at hcur
    exact h.loaded_pos j cur hcur

theorem Sound.goTo (h : Sound s) (hpc : (s.pc i).Busy → p.Busy)
    (hloaded : ∀ cur, p = .exchanging cur → 0 < cur) : Sound (s.goTo i p) where
  waits_le := h.waits_le
  word_eq := h.word_eq
  loaded_pos _ cur hcur := h.loaded_goTo hloaded cur hcur
  covered hsleepers := (h.covered hsleepers).goTo hpc

/-- A unit can be taken only where a post has not been used up. -/
theorem Sound.take (h : Sound s) (hpc : s.pc i = .exchanging s.word) :
    Sound { s.goTo i (.returned 0) with word := s.word - 1, waits := s.waits + 1 } := by
  have hpos : 0 < s.word := h.loaded_pos i s.word hpc
  have hnat : 0 < s.word.toNat := by bv_omega
  have hsub : (s.word - 1).toNat = s.word.toNat - 1 := by bv_omega
  have hword := h.word_eq
  refine ⟨?_, ?_, fun j cur hcur => h.loaded_goTo (by simp) cur hcur, ?_⟩
  · change s.waits + 1 ≤ s.posts
    by_contra hlt
    rw [Nat.sub_eq_zero_of_le (by omega), Nat.zero_mod] at hword
    omega
  · change (s.word - 1).toNat = (s.posts - (s.waits + 1)) % 2 ^ 32
    omega
  · exact fun hsleepers => (h.covered hsleepers).take hpos

theorem Sound.add (h : Sound s) (hi : i ∉ s.sleepers) (hpc : s.pc i = .adding) :
    Sound { s.goTo i .waking with word := s.word + 1, posts := s.posts + 1 } := by
  have hword := h.word_eq
  have hle := h.waits_le
  refine ⟨hle.trans (Nat.le_succ _), ?_, fun j cur hcur => h.loaded_goTo (by simp) cur hcur,
    fun hsleepers => (h.covered hsleepers).add hi hpc⟩
  have hadd : (s.word + 1).toNat = (s.word.toNat + 1) % 2 ^ 32 := BitVec.toNat_add _ _
  change (s.word + 1).toNat = (s.posts + 1 - s.waits) % 2 ^ 32
  rw [hadd, hword]
  omega

theorem Sound.move (h : Sound s) (hmove : Move s s') : Sound s' := by
  cases hmove with
  | goOn i p hpc hloaded => exact h.goTo hpc hloaded
  | take i hpc => exact h.take hpc
  | sleep i hword =>
    exact ⟨h.waits_le, h.word_eq, h.loaded_pos, fun _ => covered_of_word_eq_zero hword⟩
  | awaken i rc errno hloading =>
    refine ⟨h.waits_le, h.word_eq, fun j cur hcur => ?_, fun hsleepers => ?_⟩
    · exact h.loaded_goTo (by rw [hloading]; simp) cur hcur
    · have hsome : s.sleepers.Nonempty := hsleepers.mono (Finset.erase_subset i s.sleepers)
      exact (h.covered hsome).awaken hloading
  | add i hi hpc => exact h.add hi hpc
  | wakeNobody i hnobody =>
    refine ⟨h.waits_le, h.word_eq, fun j cur hcur => h.loaded_goTo (by simp) cur hcur, ?_⟩
    intro hsleepers
    exact absurd hnobody hsleepers.ne_empty
  | wake i j hi hj =>
    refine ⟨h.waits_le, h.word_eq, fun k cur hcur => ?_, fun _ => (h.covered ⟨j, hj⟩).wake hi hj⟩
    by_cases hki : k = i
    · subst hki
      rw [goTo_pc_self] at hcur
      cases hcur
    · rw [goTo_pc_of_ne hki] at hcur
      exact h.loaded_goTo (i := j) (p := .loading) (by simp) cur hcur
  | init => exact ⟨Nat.le_refl _, rfl, h.loaded_pos, fun _ => covered_of_word_eq_zero rfl⟩

theorem sound_of_run {as : List (Action ι)} (h : runFrom step start as = some s) : Sound s :=
  runFrom_invariant (fun _ _ _ hs hstep => hs.move (step_move hstep)) sound_start h

/-- At every moment the word counts the posts less the completed waits, modulo `2 ^ 32`, and
nobody sleeps beside a positive word unless a post has its `FUTEX_WAKE` still to do or a waiter
is awake in the loop. -/
theorem word_counts {as : List (Action ι)} (h : runFrom step start as = some s) :
    s.waits ≤ s.posts ∧ s.word.toNat = (s.posts - s.waits) % 2 ^ 32 ∧
      (s.sleepers.Nonempty → 0 < s.word →
        (∃ i, s.pc i = .waking) ∨ ∃ i, i ∉ s.sleepers ∧ (s.pc i).InLoop) := by
  have hsound := sound_of_run h
  refine ⟨hsound.waits_le, hsound.word_eq, fun hsleepers hword => ?_⟩
  obtain ⟨t, hcard, ht⟩ := hsound.covered hsleepers
  have hpos : 0 < s.word.toNat := by bv_omega
  obtain ⟨i, hi⟩ := Finset.card_pos.mp (hpos.trans_le hcard)
  rcases (ht i hi).2 with hloop | hwaking
  · exact .inr ⟨i, (ht i hi).1, hloop⟩
  · exact .inl ⟨i, hwaking⟩

/-- A waiter falls asleep, the mailbox is initialised again, and a post wakes the waiter. -/
def wokenAfterInit : List (Action ℕ) :=
  [.callWait 0, .load 0, .futexWait 0, .init, .callPost 1, .fetchAdd 1, .futexWake 1 (some 0),
    .load 0]

theorem word_counts_wokenAfterInit : ∃ s, runFrom step start wokenAfterInit = some s ∧
    s.waits ≤ s.posts ∧ s.word.toNat = (s.posts - s.waits) % 2 ^ 32 ∧
      (s.sleepers.Nonempty → 0 < s.word →
        (∃ i, s.pc i = .waking) ∨ ∃ i, i ∉ s.sleepers ∧ (s.pc i).InLoop) := by
  have hruns : (runFrom step start wokenAfterInit).isSome := by decide
  obtain ⟨s, hs⟩ := Option.isSome_iff_exists.mp hruns
  exact ⟨s, hs, word_counts hs⟩

/-- A post with nobody to wake. -/
def postAlone : List (Action ℕ) := [.callPost 0, .fetchAdd 0, .futexWake 0 none]

theorem run_postAlone {s : State ℕ} (hpc : s.pc 0 = .returned 0) (hs : s.sleepers = ∅) :
    ∃ s', runFrom step s postAlone = some s' ∧ s'.pc 0 = .returned 0 ∧ s'.sleepers = ∅ ∧
      s'.posts = s.posts + 1 ∧ s'.waits = s.waits := by
  let called := s.goTo 0 .adding
  let added : State ℕ := { called.goTo 0 .waking with word := s.word + 1, posts := s.posts + 1 }
  have hnone : 0 ∉ s.sleepers := by simp [hs]
  have hcalled : called.awakePc 0 = some .adding := awakePc_eq_some.mpr ⟨hnone, goTo_pc_self⟩
  have hwaking : (called.goTo 0 .waking).pc 0 = .waking := goTo_pc_self
  have hadded : added.awakePc 0 = some .waking := awakePc_eq_some.mpr ⟨hnone, hwaking⟩
  have hcall : step (.callPost 0) s = some called := by
    rw [step, awakePc_eq_some.mpr ⟨hnone, hpc⟩]
  have hadd : step (.fetchAdd 0) called = some added := by
    rw [step, hcalled]
    rfl
  have hwake : step (.futexWake 0 none) added = some (added.goTo 0 (.returned 0)) := by
    rw [step, hadded]
    exact if_pos hs
  refine ⟨added.goTo 0 (.returned 0), ?_, goTo_pc_self, hs, rfl, rfl⟩
  rw [postAlone, runFrom_cons, hcall, Option.bind_some, runFrom_cons, hadd, Option.bind_some,
    runFrom_cons, hwake]
  rfl

theorem run_postsAlone (n : ℕ) :
    ∃ s, runFrom step start (List.replicate n postAlone).flatten = some s ∧
      s.pc 0 = .returned 0 ∧ s.sleepers = ∅ ∧ s.posts = n ∧ s.waits = 0 := by
  induction n with
  | zero => exact ⟨start, rfl, rfl, rfl, rfl, rfl⟩
  | succ n ih =>
    obtain ⟨s, hrun, hpc, hs, hposts, hwaits⟩ := ih
    obtain ⟨s', hrun', hpc', hs', hposts', hwaits'⟩ := run_postAlone hpc hs
    refine ⟨s', ?_, hpc', hs', by rw [hposts', hposts], by rw [hwaits', hwaits]⟩
    rw [List.replicate_succ', List.flatten_concat, runFrom_append_eq_some]
    exact ⟨s, hrun, hrun'⟩

/-- After `2 ^ 32` posts which nobody has waited for, the word is 0. -/
theorem word_wraps : ∃ s, runFrom step start (List.replicate (2 ^ 32) postAlone).flatten = some s ∧
    s.word.toNat ≠ s.posts - s.waits := by
  obtain ⟨s, hrun, -, -, hposts, hwaits⟩ := run_postsAlone (2 ^ 32)
  refine ⟨s, hrun, ?_⟩
  rw [(sound_of_run hrun).word_eq, hposts, hwaits, Nat.sub_zero, Nat.mod_self]
  exact Nat.ne_of_lt (Nat.two_pow_pos 32)

end McMini.FutexWord
