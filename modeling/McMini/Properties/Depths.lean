import McMini.Dpor.Step
import McMini.Foundation.FallibleLists
import McMini.Properties.Layers

/-!
# Programs at earlier depths

A program remembers what it was at each depth of its trace: its states in the state sequence, and
its pending transitions in the trace itself, where a runner which moved later had the first of its
later transitions pending (`Program.pendingAtDepth`). Neither executing a transition nor going back
changes what is remembered about the depths which remain. Discoveries only add to it
(`Program.Keeps`): runners which nothing was known about, and objects which no pending transition
referred to.
-/

namespace McMini

open Foundation

namespace Program

/-- The number of runners which the owner of the states knows. -/
def runnerCount (p : Program) : ℕ := p.stateSeq.runnerToObjMap.size

/-- What the runner was about to do at the depth. -/
def pendingAtDepth (p : Program) (i : ℕ) (q : RunnerId) : Option Transition :=
  ((p.trace.drop i).find? (·.executor == q)).or (p.nextSteps.lookup q)

/-- The transition which was pending for the runner at the depth is enabled in the state there. -/
def EnabledAtDepth (p : Program) (i : ℕ) (q : RunnerId) : Prop :=
  ∃ t u, p.pendingAtDepth i q = some t ∧ p.stateSeq.stateAtDepth i = some u ∧
    t.isEnabledIn u = .ok true

/-- The program `p'` remembers, up to depth `n`, what `p` remembers of the runners `p` knows. -/
structure Keeps (n : ℕ) (p p' : Program) : Prop where
  states : ∀ i ≤ n, ∀ u, p.stateSeq.stateAtDepth i = some u →
    ∃ u', p'.stateSeq.stateAtDepth i = some u' ∧ u.ExtendedBy u'
  pending : ∀ i ≤ n, ∀ q < p.runnerCount, p'.pendingAtDepth i q = p.pendingAtDepth i q
  trace : p'.trace.take n = p.trace.take n
  count : p.runnerCount ≤ p'.runnerCount

/-- A program with a state for each depth of its trace. At the start there were `r₀` runners, and at
the depths there have been as many as `runners` says. -/
structure Deep (p : Program) (r₀ : ℕ) (runners : List ℕ) : Prop where
  layers : ∃ layers, p.stateSeq.Layered r₀ layers ∧ layers.map Layer.runners = runners
  length : p.stateSeq.earlier.length = p.trace.length
  keyed : ∀ q t, p.nextSteps.lookup q = some t → t.executor = q
  initially : r₀ ≤ p.runnerCount

/-- A program in the course of an exploration, whose runners are known and whose trace can be
executed. -/
structure Layered (p : Program) (r₀ : ℕ) (runners : List ℕ) : Prop extends p.Deep r₀ runners where
  known : ∀ q t, p.nextSteps.lookup q = some t → q < p.runnerCount
  executable : ∀ i t, p.trace[i]? = some t → p.EnabledAtDepth i t.executor

variable {p p' p'' : Program} {i n r₀ : ℕ} {q : RunnerId} {t : Transition} {runners : List ℕ}
  {u : State}

theorem pendingAtDepth_length : p.pendingAtDepth p.trace.length q = p.nextSteps.lookup q := by
  rw [pendingAtDepth, List.drop_length]
  rfl

/-- The runner which moved at a depth executed what it had pending there. -/
theorem pendingAtDepth_executor (h : p.trace[i]? = some t) :
    p.pendingAtDepth i t.executor = some t := by
  obtain ⟨hi, rfl⟩ := List.getElem?_eq_some_iff.mp h
  rw [pendingAtDepth, List.drop_eq_getElem_cons hi, List.find?_cons_of_pos (by simp)]
  rfl

theorem pendingAtDepth_succ (h : p.trace[i]? = some t) (hne : t.executor ≠ q) :
    p.pendingAtDepth (i + 1) q = p.pendingAtDepth i q := by
  obtain ⟨hi, rfl⟩ := List.getElem?_eq_some_iff.mp h
  rw [pendingAtDepth, pendingAtDepth, List.drop_eq_getElem_cons hi,
    List.find?_cons_of_neg (by simpa using hne)]

namespace Keeps

theorem refl (n : ℕ) (p : Program) : Keeps n p p :=
  ⟨fun _ _ u hu => ⟨u, hu, .refl u⟩, fun _ _ _ _ => rfl, rfl, le_rfl⟩

theorem trans (h : Keeps n p p') (h' : Keeps n p' p'') : Keeps n p p'' where
  states i hi u hu := by
    obtain ⟨u', hu', hext⟩ := h.states i hi u hu
    obtain ⟨u'', hu'', hext'⟩ := h'.states i hi u' hu'
    exact ⟨u'', hu'', hext.trans hext'⟩
  pending i hi q hq := (h'.pending i hi q (hq.trans_le h.count)).trans (h.pending i hi q hq)
  trace := h'.trace.trans h.trace
  count := h.count.trans h'.count

theorem mono {m : ℕ} (h : Keeps n p p') (hm : m ≤ n) : Keeps m p p' where
  states i hi := h.states i (hi.trans hm)
  pending i hi := h.pending i (hi.trans hm)
  trace := by
    have htake := congrArg (List.take m) h.trace
    rwa [List.take_take, List.take_take, min_eq_left hm] at htake
  count := h.count

/-- What was enabled stays enabled. -/
theorem enabledAtDepth (h : Keeps n p p') (hi : i ≤ n) (hq : q < p.runnerCount)
    (henabled : p.EnabledAtDepth i q) : p'.EnabledAtDepth i q := by
  obtain ⟨t, u, hpending, hu, ht⟩ := henabled
  obtain ⟨u', hu', hext⟩ := h.states i hi u hu
  exact ⟨t, u', (h.pending i hi q hq).trans hpending, hu', hext.isEnabledIn ht⟩

end Keeps

theorem Deep.hasThread_lt (h : p.Deep r₀ runners) {th : Thread}
    (hu : p.stateSeq.stateAtDepth i = some u) (hth : u.HasThread q th) : q < p.runnerCount := by
  obtain ⟨layers, hlayers, -⟩ := h.layers
  obtain ⟨e, -, rfl⟩ := Option.map_eq_some_iff.mp hu
  obtain ⟨id, hid, -⟩ := hth
  obtain ⟨-, hmap⟩ := StateSequence.stateAt_objidForRunner.mp hid
  have hmem := Finmap.mem_keys.mpr (Finmap.mem_of_lookup_eq_some hmap)
  rwa [hlayers.runnerKeys, Finset.mem_range] at hmem

/-- The runners which have begun at a depth were known there. -/
theorem Deep.active_lt (h : p.Deep r₀ runners) {m : ℕ} (hm : runners[i]? = some m)
    (hu : p.stateSeq.stateAtDepth i = some u) {th : Thread} (hth : u.HasThread q th)
    (hbegun : th ≠ ⟨.embryo⟩) : q < m := by
  obtain ⟨layers, hlayers, rfl⟩ := h.layers
  rw [List.getElem?_map] at hm
  obtain ⟨l, hl, rfl⟩ := Option.map_eq_some_iff.mp hm
  obtain ⟨e, he, rfl⟩ := Option.map_eq_some_iff.mp hu
  rw [← hlayers.elements, List.getElem?_map, hl] at he
  obtain rfl := Option.some.inj he
  by_contra hle
  exact hbegun (hlayers.embryo_of_le (List.mem_of_getElem? hl) (not_lt.mp hle) hth)

theorem hasThread_of_isEnabledIn {b : Bool} (h : t.isEnabledIn u = .ok b) :
    ∃ th, u.HasThread t.executor th ∧ (b = true → th = ⟨.running⟩) := by
  obtain ⟨th, hth, hcase⟩ := isEnabledIn_eq_ok.mp h
  refine ⟨th, State.getStateOfRunner_eq_ok.mp hth, fun hb => ?_⟩
  rcases hcase with ⟨-, hfalse⟩ | ⟨hactive, -⟩
  · rw [hb] at hfalse
    cases hfalse
  · obtain ⟨state⟩ := th
    exact congrArg Thread.mk (Thread.isActive_iff.mp hactive)

/-- The runners with something to do are known. -/
theorem Layered.pending_lt (h : p.Layered r₀ runners) (ht : p.pendingAtDepth i q = some t) :
    t.executor = q ∧ q < p.runnerCount := by
  rcases Option.or_eq_some_iff.mp ht with hfound | ⟨-, hnext⟩
  · have hexec : t.executor = q := by simpa using List.find?_some hfound
    obtain ⟨j, hj⟩ := List.mem_iff_getElem?.mp (List.mem_of_mem_drop (List.mem_of_find?_eq_some hfound))
    obtain ⟨t', u, ht', hu, hactive⟩ := h.executable j t hj
    obtain rfl : t = t' := Option.some.inj ((pendingAtDepth_executor hj).symm.trans ht')
    obtain ⟨th, hth, -⟩ := hasThread_of_isEnabledIn hactive
    exact ⟨hexec, hexec ▸ h.hasThread_lt hu hth⟩
  · exact ⟨h.keyed q t hnext, h.known q t hnext⟩

theorem Deep.length_runners (h : p.Deep r₀ runners) : runners.length = p.trace.length + 1 := by
  obtain ⟨layers, hlayers, rfl⟩ := h.layers
  rw [List.length_map, hlayers.length, h.length]

theorem Deep.add (h : p.Deep r₀ runners) (htrace : p'.trace = p.trace)
    (hlayers : ∃ layers, p'.stateSeq.Layered r₀ layers ∧ layers.map Layer.runners = runners)
    (hlength : p'.stateSeq.earlier.length = p.stateSeq.earlier.length)
    (hcount : p.runnerCount ≤ p'.runnerCount)
    (hkeyed : ∀ q t, p'.nextSteps.lookup q = some t → t.executor = q) : p'.Deep r₀ runners :=
  ⟨hlayers, by rw [hlength, h.length, htrace], hkeyed, h.initially.trans hcount⟩

/-- Adding to the states and the pending transitions keeps everything, when what is added is not
known before. -/
theorem Layered.add (h : p.Layered r₀ runners) (htrace : p'.trace = p.trace)
    (hlayers : ∃ layers, p'.stateSeq.Layered r₀ layers ∧ layers.map Layer.runners = runners)
    (hlength : p'.stateSeq.earlier.length = p.stateSeq.earlier.length)
    (hstates : p.stateSeq.Enriched p'.stateSeq) (hcount : p.runnerCount ≤ p'.runnerCount)
    (hpending : ∀ q < p.runnerCount, p'.nextSteps.lookup q = p.nextSteps.lookup q)
    (hnew : ∀ q t, p.runnerCount ≤ q → p'.nextSteps.lookup q = some t →
      t.executor = q ∧ q < p'.runnerCount) :
    p'.Layered r₀ runners ∧ Keeps p.trace.length p p' := by
  have hkeeps : Keeps p.trace.length p p' := by
    refine ⟨fun i _ u hu => hstates i u hu, fun i _ q hq => ?_, by rw [htrace], hcount⟩
    rw [pendingAtDepth, pendingAtDepth, htrace, hpending q hq]
  have hentry : ∀ q t, p'.nextSteps.lookup q = some t → t.executor = q ∧ q < p'.runnerCount := by
    intro q t ht
    by_cases hq : q < p.runnerCount
    · have ht' := (hpending q hq).symm.trans ht
      exact ⟨h.keyed q t ht', hq.trans_le hcount⟩
    · exact hnew q t (not_lt.mp hq) ht
  refine ⟨⟨h.toDeep.add htrace hlayers hlength hcount fun q t ht => (hentry q t ht).1,
    fun q t ht => (hentry q t ht).2, fun i t ht => ?_⟩, hkeeps⟩
  rw [htrace] at ht
  have hlt := (h.pending_lt (pendingAtDepth_executor ht)).2
  exact hkeeps.enabledAtDepth (List.getElem?_eq_some_iff.mp ht).1.le hlt (h.executable i t ht)

/-- What following a transition answers says whether it is enabled. -/
theorem follow_snd (s : StateSequence) (t : Transition) :
    (s.follow t).2 = (t.applyTo s.toState).map Prod.snd := by
  unfold StateSequence.follow
  rcases t.applyTo s.toState with e | ⟨d, _ | _ | _⟩
  · rfl
  · rfl
  · rfl
  · rfl

theorem isEnabledIn_iff_follow {s : StateSequence} :
    t.isEnabledIn s.toState = .ok true ↔ (s.follow t).2 = .ok .exists' := by
  rw [follow_snd]
  unfold Transition.isEnabledIn
  rcases t.applyTo s.toState with e | ⟨d, _ | _ | _⟩ <;>
    simp [bind, Except.bind, pure, Except.pure, Except.map]

theorem Deep.stateAtDepth_length (h : p.Deep r₀ runners) :
    p.stateSeq.stateAtDepth p.trace.length = some p.stateSeq.toState :=
  h.length ▸ StateSequence.stateAtDepth_length

theorem Deep.le_of_stateAtDepth (h : p.Deep r₀ runners)
    (hu : p.stateSeq.stateAtDepth i = some u) : i ≤ p.trace.length := by
  obtain ⟨e, he, -⟩ := Option.map_eq_some_iff.mp hu
  have hlt := (List.getElem?_eq_some_iff.mp he).1
  rw [StateSequence.statesInSequence, List.length_append, List.length_singleton, h.length] at hlt
  exact Nat.le_of_lt_succ hlt

theorem Deep.exists_stateAtDepth (h : p.Deep r₀ runners) (hi : i ≤ p.trace.length) :
    ∃ u, p.stateSeq.stateAtDepth i = some u := by
  have hlt : i < p.stateSeq.statesInSequence.length := by
    rw [StateSequence.statesInSequence, List.length_append, List.length_singleton, h.length]
    exact Nat.lt_succ_of_le hi
  exact ⟨_, Option.map_eq_some_iff.mpr ⟨_, List.getElem?_eq_getElem hlt, rfl⟩⟩

/-- What is added to the state of a depth are embryos. -/
theorem Deep.hasThread_of_extendedBy (h : p.Deep r₀ runners) {runners' : List ℕ} {u' : State}
    {th : Thread} (h' : p'.Deep r₀ runners') (hrunners : runners'[i]? = runners[i]?)
    (hu : p.stateSeq.stateAtDepth i = some u) (hu' : p'.stateSeq.stateAtDepth i = some u')
    (hext : u.ExtendedBy u') (hth : u'.HasThread q th) (hbegun : th ≠ ⟨.embryo⟩) :
    u.HasThread q th := by
  obtain ⟨layers, hlayers, rfl⟩ := h.layers
  obtain ⟨e, he, rfl⟩ := Option.map_eq_some_iff.mp hu
  rw [← hlayers.elements, List.getElem?_map] at he
  obtain ⟨l, hl, rfl⟩ := Option.map_eq_some_iff.mp he
  have hm : (layers.map Layer.runners)[i]? = some l.runners := by
    rw [List.getElem?_map, hl, Option.map_some]
  have hq := h'.active_lt (hrunners.trans hm) hu' hth hbegun
  exact hlayers.hasThread_of_lt (List.mem_of_getElem? hl) hq hext hth

/-- When the enabled runners can be found out, every pending transition can be examined. -/
theorem getEnabledRunners_eq_ok {l : List RunnerId} (h : p.getEnabledRunners = .ok l) :
    (∀ q t, p.nextSteps.lookup q = some t → ∃ b, t.isEnabledIn p.stateSeq.toState = .ok b) ∧
      ∀ q, q ∈ l ↔ ∃ t, p.nextSteps.lookup q = some t ∧ t.isEnabledIn p.stateSeq.toState = .ok true := by
  obtain ⟨hexamined, hmem⟩ := Foundation.filterM_eq_ok h
  refine ⟨fun q t ht => ?_, fun q => ?_⟩
  · obtain ⟨b, hb⟩ := hexamined q (mem_runners.mpr ⟨t, ht⟩)
    rw [ht] at hb
    exact ⟨b, hb⟩
  · rw [hmem q, mem_runners]
    cases hq : p.nextSteps.lookup q with
    | none => simp
    | some t => simp

/-- The runners which were enabled when the program was at a depth are those which are enabled
there. -/
theorem Layered.mem_enabledRunners_iff (h : p'.Layered r₀ runners) {runners' : List ℕ}
    (hmodel : p.Layered r₀ runners') (hkeeps : Keeps p.trace.length p p')
    (hcount : runners[p.trace.length]? = some p.runnerCount) {l : List RunnerId}
    (henabled : p.getEnabledRunners = .ok l) :
    q ∈ l ↔ p'.EnabledAtDepth p.trace.length q := by
  obtain ⟨hexamined, hmem⟩ := getEnabledRunners_eq_ok henabled
  rw [hmem]
  constructor
  · rintro ⟨t, ht, henabled⟩
    exact hkeeps.enabledAtDepth le_rfl (hmodel.known q t ht)
      ⟨t, _, pendingAtDepth_length.trans ht, hmodel.stateAtDepth_length, henabled⟩
  · rintro ⟨t, u, ht, hu, henabled⟩
    obtain ⟨th, hth, hrunning⟩ := hasThread_of_isEnabledIn henabled
    rw [(h.pending_lt ht).1] at hth
    have hq : q < p.runnerCount := h.active_lt hcount hu hth (by rw [hrunning rfl]; decide)
    have ht' : p.nextSteps.lookup q = some t := by
      rw [← pendingAtDepth_length, ← hkeeps.pending _ le_rfl q hq, ht]
    obtain ⟨b, hb⟩ := hexamined q t ht'
    obtain ⟨u', hu', hext⟩ := hkeeps.states _ le_rfl _ hmodel.stateAtDepth_length
    obtain rfl : u = u' := Option.some.inj (hu.symm.trans hu')
    obtain rfl : b = true := Except.ok.inj ((hext.isEnabledIn hb).symm.trans henabled)
    exact ⟨t, ht', hb⟩

/-- A recorded state is a depth of its own. -/
theorem Deep.record (h : p.Deep r₀ runners) (d : DiffState) (next : Transition)
    (ht : t.executor = q) :
    Deep ⟨p.stateSeq.record d, p.trace ++ [next], p.nextSteps.insert q t⟩ r₀
      (runners ++ [p.runnerCount]) := by
  obtain ⟨layers, hlayers, rfl⟩ := h.layers
  refine ⟨⟨_, hlayers.record h.initially d, ?_⟩, ?_, fun r u hu => ?_, h.initially⟩
  · rw [List.map_append, List.map_singleton]
    rfl
  · rw [List.length_append, ← h.length]
    exact List.length_append
  · rw [lookup_insert] at hu
    split_ifs at hu with hr
    · exact (Option.some.inj hu).symm ▸ ht.trans hr
    · exact h.keyed r u hu

/-- **Executing a transition** adds a depth. -/
theorem Layered.execute (h : p.Layered r₀ runners) (hmodel : p.modelExecutionOf q t = .ok p') :
    p'.Layered r₀ (runners ++ [p'.runnerCount]) ∧ Keeps p.trace.length p p' ∧
      p'.runnerCount = p.runnerCount ∧
      ∃ next, p.nextSteps.lookup q = some next ∧ p'.trace = p.trace ++ [next] := by
  obtain ⟨hexec, next, s', hnext, hfollow, rfl⟩ := modelExecutionOf_eq_ok.mp hmodel
  have hq : next.executor = q := h.keyed q next hnext
  have hmap := (StateSequence.continues_follow hfollow).runners
  have hcount : s'.runnerToObjMap.size = p.runnerCount := by
    rw [hmap]
    rfl
  have hstates := StateSequence.enriched_follow hfollow
  have hkeeps : Keeps p.trace.length p ⟨s', p.trace ++ [next], p.nextSteps.insert q t⟩ := by
    refine ⟨fun i _ u hu => hstates i u hu, fun i hi r _ => ?_, ?_, hcount.ge⟩
    · -- the runner which moves had pending what it executes
      rw [pendingAtDepth, pendingAtDepth, List.drop_append_of_le_length hi, List.find?_append,
        Option.or_assoc, lookup_insert]
      congr 1
      by_cases hr : q = r
      · subst hr
        simp [hq, hnext]
      · simp [hq, hr]
    · rw [List.take_append_of_le_length le_rfl]
  have hlt := h.known q next hnext
  have hdeep : Deep ⟨s', p.trace ++ [next], p.nextSteps.insert q t⟩ r₀
      (runners ++ [s'.runnerToObjMap.size]) := by
    obtain ⟨d, -, -, rfl⟩ := StateSequence.follow_eq_exists hfollow
    exact h.toDeep.record d next hexec
  refine ⟨⟨hdeep, fun r u hu => ?_, fun i u hu => ?_⟩, hkeeps, hcount, next, hnext, rfl⟩
  · have hu' : (p.nextSteps.insert q t).lookup r = some u := hu
    rw [lookup_insert] at hu'
    refine lt_of_lt_of_eq ?_ hcount.symm
    split_ifs at hu' with hr
    · exact hr ▸ hlt
    · exact h.known r u hu'
  · have hu' : (p.trace ++ [next])[i]? = some u := hu
    by_cases hi : i < p.trace.length
    · rw [List.getElem?_append_left hi] at hu'
      exact hkeeps.enabledAtDepth hi.le (h.pending_lt (pendingAtDepth_executor hu')).2
        (h.executable i u hu')
    -- at the new depth the transition was enabled, as it has been followed
    · obtain rfl : i = p.trace.length := by
        have hlen := (List.getElem?_eq_some_iff.mp hu').1
        rw [List.length_append, List.length_singleton] at hlen
        omega
      rw [List.getElem?_concat_length] at hu'
      obtain rfl := Option.some.inj hu'
      obtain ⟨u', hu', hext⟩ := hkeeps.states _ le_rfl _ h.stateAtDepth_length
      exact ⟨next, u', pendingAtDepth_executor hu, hu',
        hext.isEnabledIn (isEnabledIn_iff_follow.mpr (congrArg Prod.snd hfollow))⟩

/-- What is pending after going back has been executed, or was pending before. -/
theorem restoredSteps_cases (ht : (p.restoredSteps n).lookup q = some t) :
    (∃ i : ℕ, p.trace[i]? = some t ∧ t.executor = q) ∨ p.nextSteps.lookup q = some t := by
  rw [restoredSteps_lookup_index] at ht
  rcases Option.or_eq_some_iff.mp ht with hexecuted | ⟨-, hnext⟩
  · obtain ⟨i, hi, hindex⟩ := Option.bind_eq_some_iff.mp hexecuted
    obtain ⟨-, u, hu, hexecutor⟩ := runnerToIndexFromTop_keyed p.trace (uint32Pred n) ⟨q, i⟩
      (List.of_mem_dlookup hi)
    obtain rfl := Option.some.inj (hu.symm.trans hindex)
    exact .inl ⟨i, hu, hexecutor⟩
  · exact .inr hnext

/-- **Going back** leaves the depths up to the one it goes back to. -/
theorem Deep.restoreModelAtDepth (h : p.Deep r₀ runners)
    (hrestore : p.restoreModelAtDepth n = (p', .ok ())) :
    p'.Deep r₀ (runners.take (n + 1)) ∧
      (∀ i ≤ n, p'.stateSeq.stateAtDepth i = p.stateSeq.stateAtDepth i) ∧
      p'.trace = p.trace.take n ∧ p'.nextSteps = p.restoredSteps n ∧
      p'.runnerCount = p.runnerCount := by
  obtain ⟨layers, hlayers, rfl⟩ := h.layers
  obtain ⟨s', hconsume, rfl⟩ : ∃ s', p.stateSeq.consumeIntoSubsequence (n + 1) = (s', .ok ()) ∧
      p' = ⟨s', p.trace.take n, p.restoredSteps n⟩ := by
    unfold Program.restoreModelAtDepth at hrestore
    obtain ⟨hp', hresult⟩ := Prod.mk.inj hrestore
    exact ⟨_, Prod.ext rfl hresult, hp'.symm⟩
  obtain ⟨hlayers', hstates, hmap⟩ := hlayers.consumeIntoSubsequence hconsume
  have hcount : s'.runnerToObjMap.size = p.runnerCount := by
    rw [hmap]
    rfl
  refine ⟨⟨⟨_, hlayers', List.map_take⟩, ?_, fun r t ht => ?_, h.initially.trans_eq hcount.symm⟩,
    hstates, rfl, rfl, hcount⟩
  · have hlength := hlayers'.length
    rw [List.length_take, hlayers.length, h.length] at hlength
    show s'.earlier.length = (p.trace.take n).length
    rw [List.length_take]
    omega
  · rcases restoredSteps_cases ht with ⟨i, -, hexecutor⟩ | hnext
    · exact hexecutor
    · exact h.keyed r t hnext

/-- Going back leaves a program whose trace can be executed. -/
theorem Layered.restoreModelAtDepth (h : p.Layered r₀ runners)
    (hrestore : p.restoreModelAtDepth n = (p', .ok ())) :
    p'.Layered r₀ (runners.take (n + 1)) ∧
      (∀ i ≤ n, p'.stateSeq.stateAtDepth i = p.stateSeq.stateAtDepth i) ∧
      p'.trace = p.trace.take n ∧ p'.nextSteps = p.restoredSteps n ∧
      p'.runnerCount = p.runnerCount := by
  obtain ⟨hdeep, hstates, htrace, hnext, hcount⟩ := h.toDeep.restoreModelAtDepth hrestore
  refine ⟨⟨hdeep, fun r t ht => ?_, fun i t ht => ?_⟩, hstates, htrace, hnext, hcount⟩
  · rw [hcount]
    rw [hnext] at ht
    rcases restoredSteps_cases ht with ⟨i, hi, rfl⟩ | hpending
    · exact (h.pending_lt (pendingAtDepth_executor hi)).2
    · exact h.known r t hpending
  · -- what was executed above the depth is still pending where it was executed
    have hi : i < n := by
      have hlt := (List.getElem?_eq_some_iff.mp ht).1
      rw [htrace, List.length_take] at hlt
      omega
    have ht' : p.trace[i]? = some t := by
      rw [← List.getElem?_take_of_lt hi, ← htrace]
      exact ht
    obtain ⟨t', u, hpending, hu, henabled⟩ := h.executable i t ht'
    obtain rfl : t = t' := Option.some.inj ((pendingAtDepth_executor ht').symm.trans hpending)
    exact ⟨t, u, pendingAtDepth_executor ht, (hstates i hi.le).trans hu, henabled⟩

/-- Going back, other than to depth `0`, brings back all that is remembered. -/
theorem Layered.restore (h : p.Layered r₀ runners) (hn : 1 ≤ n) (hle : n ≤ p.trace.length)
    (hrestore : p.restoreModelAtDepth n = (p', .ok ())) :
    p'.Layered r₀ (runners.take (n + 1)) ∧ Keeps n p p' ∧ Keeps n p' p ∧
      p'.trace = p.trace.take n ∧ p'.runnerCount = p.runnerCount := by
  obtain ⟨hlayered, hstates, htrace, hnext, hcount⟩ := h.restoreModelAtDepth hrestore
  have hpending : ∀ i ≤ n, ∀ r, p'.pendingAtDepth i r = p.pendingAtDepth i r := by
    intro i hi r
    have hsplit : p.trace.drop i = (p.trace.take n).drop i ++ p.trace.drop n := by
      conv_lhs => rw [← List.take_append_drop n p.trace]
      rw [List.drop_append_of_le_length]
      rw [List.length_take]
      omega
    rw [pendingAtDepth, pendingAtDepth, hnext, htrace, restoredSteps_lookup p (.inl hn), hsplit,
      List.find?_append, Option.or_assoc]
  have htake : p'.trace.take n = p.trace.take n := by rw [htrace, List.take_take, min_self]
  exact ⟨hlayered, ⟨fun i hi u hu => ⟨u, (hstates i hi).trans hu, .refl u⟩,
      fun i hi r _ => hpending i hi r, htake, hcount.ge⟩,
    ⟨fun i hi u hu => ⟨u, (hstates i hi).symm.trans hu, .refl u⟩,
      fun i hi r _ => (hpending i hi r).symm, htake.symm, hcount.le⟩, htrace, hcount⟩

end Program

theorem observeRunner_currentProgramModel {c : Coordinator} {handle : Addr} {th : Thread}
    {f : RunnerId → Transition} {r : RunnerId} (hnew : c.contains handle = false)
    (hresult : (c.getStateSequence.addRunner th).2 = .ok r) :
    ((observeRunner handle th f).run c).2.currentProgramModel =
      ⟨(c.getStateSequence.addRunner th).1, c.currentProgramModel.trace,
        c.currentProgramModel.nextSteps.insert (f r).executor (f r)⟩ := by
  unfold observeRunner
  simp only [run_bind, run_get, hnew]
  rw [hresult]
  rfl

/-- A callback adds to what is remembered. -/
theorem Adds.deep {c c' : Coordinator} {r₀ : ℕ} {runners : List ℕ} (h : Adds c c')
    (hdeep : c.currentProgramModel.Deep r₀ runners) :
    c'.currentProgramModel.Deep r₀ runners ∧ c'.getTrace = c.getTrace ∧
      c.getStateSequence.Enriched c'.getStateSequence ∧
      c.currentProgramModel.runnerCount ≤ c'.currentProgramModel.runnerCount := by
  obtain ⟨layers, hlayers, rfl⟩ := hdeep.layers
  have hrunners : ∀ {layers' : List Layer}, layers'.map Layer.marks = layers.map Layer.marks →
      layers'.map Layer.runners = layers.map Layer.runners := by
    intro layers' hmarks
    have hsnd := congrArg (List.map Prod.snd) hmarks
    rwa [List.map_map, List.map_map] at hsnd
  cases h with
  | nothing => exact ⟨hdeep, rfl, .refl _, le_rfl⟩
  | @object handle o hnew =>
    obtain ⟨layers', hlayers', hmarks⟩ := hlayers.addObject o
    exact ⟨hdeep.add rfl ⟨layers', hlayers', hrunners hmarks⟩ rfl le_rfl hdeep.keyed, rfl,
      hlayers.enriched_addObject o, le_rfl⟩
  | @runner handle hnew =>
    obtain ⟨⟨layers', hlayers', hmarks⟩, hstates, hresult⟩ := hlayers.addRunner
    obtain ⟨m, hforward, heq⟩ :=
      StateSequence.addRunner_eq hlayers.runnerKeys hlayers.runnerObjects ⟨.embryo⟩
    have hmodel := observeRunner_currentProgramModel (f := fun id => ⟨id, .threadStart⟩) hnew hresult
    have hearlier : (c.getStateSequence.addRunner ⟨.embryo⟩).1.earlier =
        c.getStateSequence.earlier := by
      rw [Coordinator.getStateSequence, heq]
    have hcount : (c.getStateSequence.addRunner ⟨.embryo⟩).1.runnerToObjMap.size =
        c.currentProgramModel.runnerCount + 1 := by
      rw [Coordinator.getStateSequence, heq]
      exact InjectiveFunction.size_of_forward_insert hlayers.runnerKeys hforward
    simp only [Coordinator.getTrace, Coordinator.getStateSequence, hmodel]
    refine ⟨hdeep.add rfl ⟨layers', hlayers', hrunners hmarks⟩ (congrArg List.length hearlier) ?_
      fun q t ht => ?_, trivial, hstates, ?_⟩
    · exact (Nat.le_succ _).trans_eq hcount.symm
    · rw [lookup_insert] at ht
      split_ifs at ht with hq
      · rw [← Option.some.inj ht]
        exact hq
      · exact hdeep.keyed q t ht
    · exact (Nat.le_succ _).trans_eq hcount.symm

/-- What a callback adds is new. -/
theorem Adds.layered {c c' : Coordinator} {r₀ : ℕ} {runners : List ℕ} (h : Adds c c')
    (hlayered : c.currentProgramModel.Layered r₀ runners) :
    c'.currentProgramModel.Layered r₀ runners ∧
      c.currentProgramModel.Keeps c.getTrace.length c'.currentProgramModel := by
  obtain ⟨hdeep, htrace, hstates, hcount⟩ := h.deep hlayered.toDeep
  have hlength : c'.getStateSequence.earlier.length = c.getStateSequence.earlier.length :=
    hdeep.length.trans ((congrArg List.length htrace).trans hlayered.length.symm)
  cases h with
  | nothing => exact ⟨hlayered, .refl _ _⟩
  | object hnew =>
    exact hlayered.add htrace hdeep.layers hlength hstates hcount (fun _ _ => rfl)
      fun q t hq ht => ⟨hlayered.keyed q t ht, hlayered.known q t ht⟩
  | @runner handle hnew =>
    obtain ⟨layers, hlayers, -⟩ := hlayered.layers
    obtain ⟨-, -, hresult⟩ := hlayers.addRunner
    have hmodel := observeRunner_currentProgramModel (f := fun id => ⟨id, .threadStart⟩) hnew hresult
    obtain ⟨m, hforward, heq⟩ :=
      StateSequence.addRunner_eq hlayers.runnerKeys hlayers.runnerObjects ⟨.embryo⟩
    have hsize : ((observeRunner handle ⟨.embryo⟩ fun id => ⟨id, .threadStart⟩).run
        c).2.currentProgramModel.runnerCount = c.currentProgramModel.runnerCount + 1 := by
      rw [hmodel, Program.runnerCount, Coordinator.getStateSequence, heq]
      exact InjectiveFunction.size_of_forward_insert hlayers.runnerKeys hforward
    have hnext : ∀ q, ((observeRunner handle ⟨.embryo⟩ fun id => ⟨id, .threadStart⟩).run
        c).2.currentProgramModel.nextSteps.lookup q =
        if c.currentProgramModel.runnerCount = q then
          some ⟨c.currentProgramModel.runnerCount, .threadStart⟩
        else c.currentProgramModel.nextSteps.lookup q := by
      intro q
      rw [hmodel]
      exact lookup_insert _ _ _ _
    refine hlayered.add htrace hdeep.layers hlength hstates hcount (fun q hq => ?_)
      fun q t hq ht => ?_
    · rw [hnext, if_neg hq.ne']
    · rw [hnext] at ht
      split_ifs at ht with hq'
      · refine ⟨by rw [← Option.some.inj ht, ← hq'], ?_⟩
        rw [hsize, ← hq']
        exact Nat.lt_succ_self _
      · exact absurd (hlayered.known q t ht) (not_lt.mpr hq)

/-! ### The coordinator -/

section Coordinator

variable {source : ProcessSource} {c c' : Coordinator} {q : RunnerId} {n r₀ : ℕ} {runners : List ℕ}

/-- The model before the first step. -/
theorem Coordinator.Initial.deep (h : c.Initial) :
    c.currentProgramModel.Deep c.currentProgramModel.runnerCount
      [c.currentProgramModel.runnerCount] := by
  refine ⟨⟨_, h.settled.layered h.earlier, rfl⟩, ?_, h.keyed, le_rfl⟩
  rw [h.trace]
  exact congrArg List.length h.earlier

/-- The model before the first step, in which every pending transition can be examined. -/
theorem Coordinator.Initial.layered (h : c.Initial) {l : List RunnerId}
    (henabled : c.currentProgramModel.getEnabledRunners = .ok l) :
    c.currentProgramModel.Layered c.currentProgramModel.runnerCount
      [c.currentProgramModel.runnerCount] := by
  refine ⟨h.deep, fun q t ht => ?_, fun i t ht => ?_⟩
  · obtain ⟨b, hb⟩ := (Program.getEnabledRunners_eq_ok henabled).1 q t ht
    obtain ⟨th, ⟨id, hid, -⟩, -⟩ := Program.hasThread_of_isEnabledIn hb
    obtain ⟨hlt, -⟩ := StateSequence.stateAt_objidForRunner.mp hid
    exact h.keyed q t ht ▸ hlt.trans_eq h.settled.current.runners
  · rw [h.trace] at ht
    cases ht

/-- A callback teaches the model of one more runner at most. -/
theorem Adds.runnerCount_le (h : Adds c c') (hlayered : c.currentProgramModel.Layered r₀ runners) :
    c'.currentProgramModel.runnerCount ≤ c.currentProgramModel.runnerCount + 1 := by
  cases h with
  | nothing => exact Nat.le_succ _
  | object => exact Nat.le_succ _
  | @runner handle hnew =>
    obtain ⟨layers, hlayers, -⟩ := hlayered.layers
    obtain ⟨-, -, hresult⟩ := hlayers.addRunner
    obtain ⟨m, hforward, heq⟩ :=
      StateSequence.addRunner_eq hlayers.runnerKeys hlayers.runnerObjects ⟨.embryo⟩
    rw [observeRunner_currentProgramModel hnew hresult, Program.runnerCount,
      Coordinator.getStateSequence, heq]
    exact (InjectiveFunction.size_of_forward_insert hlayers.runnerKeys hforward).le

/-- What a callback has added, when it returns a transition. -/
theorem callback_layered (h : c.currentProgramModel.Layered r₀ runners)
    {contents : MailboxContents} {t : Transition} {c₁ : Coordinator}
    (hcallback : (callback q contents).run (c.afterProcess q) = (.ok t, c₁)) :
    c₁.currentProgramModel.Layered r₀ runners ∧
      c.currentProgramModel.Keeps c.getTrace.length c₁.currentProgramModel ∧
      c₁.getTrace = c.getTrace ∧ t.executor = q := by
  have hadds := callback_adds q contents (c.afterProcess q)
  have htrace := (observing_callback q contents (c.afterProcess q)).trace
  have hexecutor := callback_names q contents (c.afterProcess q) t
  rw [hcallback] at hadds htrace hexecutor
  obtain ⟨hlayered, hkeeps⟩ := hadds.layered h
  exact ⟨hlayered, hkeeps, htrace, hexecutor rfl⟩

/-- Executing a runner, when nothing is thrown, executes its pending transition. -/
theorem executeRunner_layered (h : c.currentProgramModel.Layered r₀ runners)
    (hq : q < c.currentProgramModel.runnerCount)
    (hrun : (executeRunner source q).run c = (.ok (), c')) :
    c'.currentProgramModel.Layered r₀ (runners ++ [c'.currentProgramModel.runnerCount]) ∧
      c.currentProgramModel.Keeps c.getTrace.length c'.currentProgramModel ∧
      ∃ t, c.currentProgramModel.nextSteps.lookup q = some t ∧ c'.getTrace = c.getTrace ++ [t] := by
  obtain ⟨contents, u, c₁, next, s', -, hcallback, hu, hnext, hfollow, rfl⟩ :=
    executeRunner_eq_ok hrun
  obtain ⟨hlayered, hkeeps, htrace, -⟩ := callback_layered h hcallback
  have hmodel := modelExecutionOf_eq_ok.mpr ⟨hu, next, s', hnext, hfollow, rfl⟩
  obtain ⟨hlayered', hkeeps', -, -, -, -⟩ := hlayered.execute hmodel
  have hsame : c₁.currentProgramModel.nextSteps.lookup q =
      c.currentProgramModel.nextSteps.lookup q := by
    have hpending := hkeeps.pending _ le_rfl q hq
    rw [Coordinator.getTrace, Program.pendingAtDepth_length, ← Coordinator.getTrace, ← htrace,
      Coordinator.getTrace, Program.pendingAtDepth_length] at hpending
    exact hpending
  have hlength : c₁.currentProgramModel.trace.length = c.getTrace.length :=
    congrArg List.length htrace
  rw [hlength] at hkeeps'
  exact ⟨hlayered', hkeeps.trans hkeeps', next, hsame ▸ hnext, congrArg (· ++ [next]) htrace⟩

/-- An enabled runner can be executed: the model accepts whatever transition it reports. -/
theorem modelExecutionOf_of_enabled (h : c.currentProgramModel.Layered r₀ runners)
    (henabled : c.currentProgramModel.EnabledAtDepth c.getTrace.length q)
    {contents : MailboxContents} {t : Transition} {c₁ : Coordinator}
    (hcallback : (callback q contents).run (c.afterProcess q) = (.ok t, c₁)) :
    ∃ program, c₁.currentProgramModel.modelExecutionOf q t = .ok program := by
  obtain ⟨hlayered, hkeeps, htrace, hexecutor⟩ := callback_layered h hcallback
  have ⟨_, _, hpending, _, _⟩ := henabled
  obtain ⟨next, u, hnext, hu, hnow⟩ :=
    hkeeps.enabledAtDepth le_rfl (h.pending_lt hpending).2 henabled
  rw [← htrace, Coordinator.getTrace, Program.pendingAtDepth_length] at hnext
  rw [← htrace, Coordinator.getTrace, hlayered.stateAtDepth_length] at hu
  obtain rfl := Option.some.inj hu
  have hfollow := Program.isEnabledIn_iff_follow.mp hnow
  exact ⟨_, modelExecutionOf_eq_ok.mpr ⟨hexecutor, next, _, hnext, Prod.ext rfl hfollow, rfl⟩⟩

/-- A return which succeeds has restored the model. -/
theorem returnToDepth_restores (h : (returnToDepth source n).run c = (.ok (), c')) :
    c.currentProgramModel.restoreModelAtDepth n = (c'.currentProgramModel, .ok ()) ∧
      n ≤ c.getTrace.length := by
  obtain ⟨hmodel, hn⟩ := returnToDepth_currentProgramModel h
  refine ⟨Prod.ext hmodel.symm ?_, hn⟩
  rw [returnToDepth_run] at h
  cases hresult : (c.currentProgramModel.restoreModelAtDepth n).2 with
  | error e =>
    rw [hresult] at h
    cases (Prod.mk.inj h).1
  | ok u => rfl

end Coordinator

end McMini
