import McMini.Model.Ownership
import McMini.Properties.Exploration

/-!
# Histories which are restored

A program executes transitions and goes back, any number of times. Its *history* consists of what
it was right after each step of its current trace. Going back to depth `n` should make it what it
was right after the `n`-th step.

It does so for the states and the trace. For the pending transitions it does so when `n` is
positive. When `n` is `0` the bound `n - 1` of the loop over the trace wraps around, no transition
is handed back, and the trace which is cut takes them along: the runners keep the transitions
which are pending for them now. `restores_iff` says when these are the right ones nonetheless.

However the program goes back, each transition is owned once.
-/

namespace McMini

open Foundation

namespace Program

/-- What going back to the depth brings back: unless the depth is `0`, everything. A runner which
has executed something must otherwise be about to execute it again. -/
def Recovers (p : Program) (n : ℕ) : Prop :=
  1 ≤ n ∨ ∀ (i : ℕ) (t : Transition), p.trace[i]? = some t →
    (∀ j < i, ∀ u : Transition, p.trace[j]? = some u → u.executor ≠ t.executor) →
    p.nextSteps.lookup t.executor = some t

/-- The programs of the list are what the last of them was after each step of its trace. -/
structure Remembers (hist : List Program) (p : Program) : Prop where
  last : ∃ init, hist = init ++ [p]
  length : hist.length = p.trace.length + 1
  inStep : ∀ (i : ℕ) (b : Program), hist[i]? = some b → b.InStep ∧ b.trace.length = i
  recalls : ∀ (i j : ℕ) (b c : Program), i ≤ j → hist[i]? = some b → hist[j]? = some c →
    ∃ ts, b.Extends c ts ∧ (ts = [] → b = c)

variable {p p' b : Program} {hist : List Program} {n : ℕ} {q : RunnerId} {t : Transition}

theorem remembers_start (h : p.InStep) (hp : p.trace = []) : Remembers [p] p := by
  have honly : ∀ {i : ℕ} {b : Program}, [p][i]? = some b → i = 0 ∧ p = b := by
    intro i b hb
    rw [List.getElem?_singleton] at hb
    split_ifs at hb with hi
    exact ⟨hi, Option.some.inj hb⟩
  refine ⟨⟨[], rfl⟩, by rw [hp]; rfl, fun i b hb => ?_, fun i j b c hij hb hc => ?_⟩
  · obtain ⟨rfl, rfl⟩ := honly hb
    exact ⟨h, by rw [hp]; rfl⟩
  · obtain ⟨-, rfl⟩ := honly hb
    obtain ⟨-, rfl⟩ := honly hc
    exact ⟨[], .refl _, fun _ => rfl⟩

theorem Remembers.getElem?_last (h : Remembers hist p) : hist[p.trace.length]? = some p := by
  obtain ⟨init, rfl⟩ := h.last
  have hlength := h.length
  rw [List.length_append, List.length_singleton, Nat.add_right_cancel_iff] at hlength
  rw [← hlength, List.getElem?_concat_length]

theorem Remembers.getElem?_lt (h : Remembers hist p) (hb : hist[n]? = some b) :
    n ≤ p.trace.length := by
  have hlt := (List.getElem?_eq_some_iff.mp hb).1
  rw [h.length] at hlt
  exact Nat.le_of_lt_succ hlt

/-- What the program was after an earlier step, and what it has executed since. -/
theorem Remembers.extends (h : Remembers hist p) (hb : hist[n]? = some b) :
    ∃ ts, b.Extends p ts ∧ (ts = [] → b = p) :=
  h.recalls n _ b p (h.getElem?_lt hb) hb h.getElem?_last

theorem Remembers.execute (h : Remembers hist p) (hmodel : p.modelExecutionOf q t = .ok p') :
    Remembers (hist ++ [p']) p' := by
  have hstep := (h.inStep _ p h.getElem?_last).1
  have htrace : p'.trace.length = p.trace.length + 1 := by
    obtain ⟨-, next, s', -, -, rfl⟩ := modelExecutionOf_eq_ok.mp hmodel
    exact List.length_append
  have hcases : ∀ {i : ℕ} {b : Program}, (hist ++ [p'])[i]? = some b →
      hist[i]? = some b ∨ i = p'.trace.length ∧ b = p' := by
    intro i b hb
    by_cases hi : i < hist.length
    · exact .inl ((List.getElem?_append_left hi).symm.trans hb)
    · have hlt := (List.getElem?_eq_some_iff.mp hb).1
      rw [List.length_append, List.length_singleton] at hlt
      obtain rfl : i = hist.length := by omega
      rw [List.getElem?_concat_length] at hb
      exact .inr ⟨h.length.trans htrace.symm, (Option.some.inj hb).symm⟩
  refine ⟨⟨hist, rfl⟩, ?_, fun i b hb => ?_, fun i j b c hij hb hc => ?_⟩
  · rw [List.length_append, h.length, htrace]
    rfl
  · rcases hcases hb with hold | ⟨rfl, rfl⟩
    · exact h.inStep i b hold
    · exact ⟨hstep.modelExecutionOf hmodel, rfl⟩
  · rcases hcases hc with hold | ⟨rfl, rfl⟩
    · rcases hcases hb with hold' | ⟨rfl, rfl⟩
      · exact h.recalls i j b c hij hold' hold
      · have hle := h.getElem?_lt hold
        omega
    · rcases hcases hb with hold' | ⟨-, rfl⟩
      · obtain ⟨ts, hextends, -⟩ := h.extends hold'
        obtain ⟨next, -, hextends'⟩ := hextends.modelExecutionOf hstep.keyed hmodel
        exact ⟨_, hextends', fun hnil => by simp at hnil⟩
      · exact ⟨[], .refl _, fun _ => rfl⟩

/-- Going back restores the states and the trace. -/
theorem Remembers.restoreModelAtDepth_eq (h : Remembers hist p) (hb : hist[n]? = some b) :
    p.restoreModelAtDepth n = (⟨b.stateSeq, b.trace, p.restoredSteps n⟩, .ok ()) := by
  obtain ⟨ts, hextends, hts⟩ := h.extends hb
  obtain ⟨hstep, rfl⟩ := h.inStep n b hb
  exact hextends.restoreModelAtDepth_eq hstep (h.inStep _ p h.getElem?_last).1 hts

theorem find?_executor_eq_some {transitions : List Transition} :
    transitions.find? (·.executor == q) = some t ↔ t.executor = q ∧
      ∃ i : ℕ, transitions[i]? = some t ∧
      ∀ j < i, ∀ u : Transition, transitions[j]? = some u → u.executor ≠ q := by
  rw [List.find?_eq_some_iff_getElem, beq_iff_eq]
  refine and_congr_right fun _ => exists_congr fun i => ⟨?_, ?_⟩
  · rintro ⟨hi, rfl, hbefore⟩
    refine ⟨List.getElem?_eq_getElem hi, fun j hj u hu => ?_⟩
    obtain ⟨hj', rfl⟩ := List.getElem?_eq_some_iff.mp hu
    simpa using hbefore j hj
  · rintro ⟨hi, hbefore⟩
    obtain ⟨hlt, rfl⟩ := List.getElem?_eq_some_iff.mp hi
    refine ⟨hlt, rfl, fun j hj => ?_⟩
    simpa using hbefore j hj _ (List.getElem?_eq_getElem (hj.trans hlt))

/-- When going back restores the pending transitions. -/
theorem Remembers.restoredSteps_iff (h : Remembers hist p) (hb : hist[n]? = some b)
    (hlength : p.trace.length ≤ 4294967296) :
    (∀ q, (p.restoredSteps n).lookup q = b.nextSteps.lookup q) ↔ p.Recovers n := by
  obtain ⟨ts, hextends, -⟩ := h.extends hb
  obtain ⟨-, rfl⟩ := h.inStep n b hb
  by_cases hn : 1 ≤ b.trace.length
  · refine iff_of_true (fun q => ?_) (.inl hn)
    rw [restoredSteps_lookup p (.inl hn), hextends.pending q, hextends.trace, List.drop_left]
  · have hzero : b.trace.length = 0 := by omega
    have htrace : p.trace = ts := by
      rw [hextends.trace, List.length_eq_zero_iff.mp hzero, List.nil_append]
    rw [hzero, restoredSteps_zero p hlength, Recovers, or_iff_right (by omega), htrace]
    constructor
    · intro hsame i t ht hbefore
      have hfind := find?_executor_eq_some.mpr ⟨rfl, i, ht, hbefore⟩
      rw [hsame, hextends.pending, hfind]
      rfl
    · intro hfirst q
      rw [hextends.pending q]
      cases hfind : ts.find? (·.executor == q) with
      | none => rfl
      | some t =>
        obtain ⟨rfl, i, ht, hbefore⟩ := find?_executor_eq_some.mp hfind
        exact hfirst i t ht hbefore

theorem Remembers.restore (h : Remembers hist p) (hb : hist[n]? = some b)
    (hlength : p.trace.length ≤ 4294967296) (hrecovers : p.Recovers n) :
    p.restoreModelAtDepth n = (b, .ok ()) ∧ Remembers (hist.take (n + 1)) b := by
  have hsteps : p.restoredSteps n = b.nextSteps :=
    Finmap.ext_lookup ((h.restoredSteps_iff hb hlength).mpr hrecovers)
  refine ⟨by rw [h.restoreModelAtDepth_eq hb, hsteps], ?_⟩
  have htake : ∀ {i : ℕ} {c : Program}, (hist.take (n + 1))[i]? = some c → hist[i]? = some c := by
    intro i c hc
    rw [List.getElem?_take] at hc
    split_ifs at hc
    exact hc
  obtain ⟨hlt, hget⟩ := List.getElem?_eq_some_iff.mp hb
  refine ⟨⟨hist.take n, ?_⟩, ?_, fun i c hc => h.inStep i c (htake hc),
    fun i j c d hij hc hd => h.recalls i j c d hij (htake hc) (htake hd)⟩
  · rw [← hget, List.take_append_getElem]
  · rw [List.length_take, (h.inStep n b hb).2, min_eq_left hlt]

end Program

namespace OwningProgram

/-- Executing transitions, each of which the caller has allocated, and going back to depths which
`allowed` permits. The list holds the program as it was right after each step of its trace. -/
inductive History (allowed : OwningProgram → ℕ → Prop) (o₀ : OwningProgram) :
    List OwningProgram → OwningProgram → Prop
  | start : History allowed o₀ [o₀] o₀
  | execute {hist o o' q t a} : History allowed o₀ hist o → a ∉ o.transitions →
      ({ o with transitions := o.transitions.insert a t } : OwningProgram).modelExecutionOf q a =
        .ok o' → History allowed o₀ (hist ++ [o']) o'
  | restore {hist o o' n} : History allowed o₀ hist o → n ≤ o.trace.length → allowed o n →
      o.restoreModelAtDepth n = .ok o' → History allowed o₀ (hist.take (n + 1)) o'

/-- The same transitions are pending and in the trace, and every object has the same state. -/
structure SameModel (o o' : OwningProgram) : Prop where
  pending : ∀ q, o.transitionAt (.nextSteps q) = o'.transitionAt (.nextSteps q)
  trace : ∀ i, o.transitionAt (.trace i) = o'.transitionAt (.trace i)
  state : o.stateSeq.toState = o'.stateSeq.toState

/-- `Program.Recovers`, read through the pointers. -/
def Recovers (o : OwningProgram) (n : ℕ) : Prop :=
  1 ≤ n ∨ ∀ i t, o.transitionAt (.trace i) = some t →
    (∀ j < i, ∀ u, o.transitionAt (.trace j) = some u → u.executor ≠ t.executor) →
    o.transitionAt (.nextSteps t.executor) = some t

variable {o o' o₀ : OwningProgram} {p p₀ b : Program} {n : ℕ} {hist : List OwningProgram}
  {allowed : OwningProgram → ℕ → Prop}

theorem Represents.recovers_iff (h : o.Represents p) : o.Recovers n ↔ p.Recovers n := by
  simp only [Recovers, Program.Recovers, h.trace, h.nextSteps]

/-- However a program goes back, it remains one whose transitions are owned once. -/
theorem History.exists_represents (h₀ : o₀.Represents p₀) (h : History allowed o₀ hist o) :
    ∃ p, o.Represents p := by
  induction h with
  | start => exact ⟨p₀, h₀⟩
  | execute _ hfresh hrun ih =>
    obtain ⟨p, hp⟩ := ih
    obtain ⟨p', -, hp'⟩ := hp.modelExecutionOf hfresh hrun
    exact ⟨p', hp'⟩
  | restore _ hn _ hrun ih =>
    obtain ⟨p, hp⟩ := ih
    exact hp.of_restoreModelAtDepth (hn.trans_eq hp.length) hrun

/-- The history of a program in memory is one of the program it represents. -/
theorem History.remembers (h₀ : o₀.Represents p₀) (hp₀ : p₀.InStep) (htrace : p₀.trace = [])
    (h : History (fun o n => o.trace.length ≤ 4294967296 ∧ o.Recovers n) o₀ hist o) :
    ∃ p programs, o.Represents p ∧ Program.Remembers programs p ∧
      List.Forall₂ Represents hist programs := by
  induction h with
  | start => exact ⟨p₀, [p₀], h₀, Program.remembers_start hp₀ htrace, .cons h₀ .nil⟩
  | execute _ hfresh hrun ih =>
    obtain ⟨p, programs, hp, hremembers, hall⟩ := ih
    obtain ⟨p', hmodel, hp'⟩ := hp.modelExecutionOf hfresh hrun
    exact ⟨p', _, hp', hremembers.execute hmodel, List.rel_append hall (.cons hp' .nil)⟩
  | @restore hist o o' n _ hn hallowed hrun ih =>
    obtain ⟨p, programs, hp, hremembers, hall⟩ := ih
    have hn' : n ≤ p.trace.length := hn.trans_eq hp.length
    obtain ⟨b, hb⟩ : ∃ b, programs[n]? = some b :=
      ⟨_, List.getElem?_eq_getElem (by rw [hremembers.length]; exact Nat.lt_succ_of_le hn')⟩
    obtain ⟨hrestore, hremembers'⟩ := hremembers.restore hb (hp.length ▸ hallowed.1)
      (hp.recovers_iff.mp hallowed.2)
    obtain ⟨o'', hrun', hp'⟩ := hp.restoreModelAtDepth hn' hrestore
    obtain rfl : o' = o'' := Except.ok.inj (hrun.symm.trans hrun')
    exact ⟨b, _, hp', hremembers', List.forall₂_take _ hall⟩

end OwningProgram

open OwningProgram in
/-- **When going back restores the model.** In every history each transition is owned once. When
the history has only gone back to depths it recovers, going back to a depth again yields the model
there was after as many steps, exactly if it recovers that depth. Positions of the trace have 32
bits. -/
theorem restores_iff {o₀ : OwningProgram} {p₀ : Program} (h₀ : o₀.Represents p₀) (hp₀ : p₀.InStep)
    (htrace : p₀.trace = []) :
    (∀ hist o, History (fun _ _ => True) o₀ hist o → o.Owned) ∧
    ∀ hist o, History (fun o n => o.trace.length ≤ 4294967296 ∧ o.Recovers n) o₀ hist o →
      o.trace.length ≤ 4294967296 → ∀ n ≤ o.trace.length, ∃ o_n o', hist[n]? = some o_n ∧
        o.restoreModelAtDepth n = .ok o' ∧ (o'.SameModel o_n ↔ o.Recovers n) := by
  refine ⟨fun hist o h => ?_, fun hist o h hlength n hn => ?_⟩
  · obtain ⟨p, hp⟩ := h.exists_represents h₀
    exact hp.owned
  · obtain ⟨p, programs, hp, hremembers, hall⟩ := h.remembers h₀ hp₀ htrace
    have hn' : n ≤ p.trace.length := hn.trans_eq hp.length
    have hlt : n < programs.length := by rw [hremembers.length]; exact Nat.lt_succ_of_le hn'
    have hlt' : n < hist.length := hall.length_eq ▸ hlt
    have hb : programs[n]? = some programs[n] := List.getElem?_eq_getElem hlt
    have hrepresents : hist[n].Represents programs[n] := List.Forall₂.get hall hlt' hlt
    obtain ⟨o', hrun, hp'⟩ := hp.restoreModelAtDepth hn' (hremembers.restoreModelAtDepth_eq hb)
    refine ⟨hist[n], o', List.getElem?_eq_getElem hlt', hrun, ?_⟩
    rw [hp.recovers_iff, ← hremembers.restoredSteps_iff hb (hp.length ▸ hlength)]
    constructor
    · intro hsame q
      rw [← hrepresents.nextSteps, ← hsame.pending, hp'.nextSteps]
    · intro hsteps
      refine ⟨fun q => ?_, fun i => ?_, ?_⟩
      · rw [hp'.nextSteps, hrepresents.nextSteps]
        exact hsteps q
      · rw [hp'.trace, hrepresents.trace]
      · rw [hp'.stateSeq, hrepresents.stateSeq]

/-- The program at `main` in memory. -/
def OwningProgram.atMain : OwningProgram where
  stateSeq := Program.startingFromMain.stateSeq
  transitions := Finmap.singleton 0 ⟨ridMainThread, .threadStart⟩
  trace := []
  nextSteps := Finmap.singleton ridMainThread 0

theorem OwningProgram.represents_atMain : OwningProgram.atMain.Represents .startingFromMain := by
  have hpending : ∀ q, OwningProgram.atMain.place (.nextSteps q) =
      if ridMainThread = q then some 0 else none := by
    intro q
    show (Finmap.insert ridMainThread 0 ∅ : Finmap fun _ : RunnerId => ℕ).lookup q = _
    rw [lookup_insert, Finmap.lookup_empty]
  have honly : ∀ w a, OwningProgram.atMain.place w = some a → w = .nextSteps ridMainThread ∧ a = 0 := by
    intro w a hw
    cases w with
    | trace i => cases hw
    | nextSteps q =>
      rw [hpending] at hw
      split_ifs at hw with hq
      exact ⟨by rw [hq], (Option.some.inj hw).symm⟩
  refine ⟨⟨fun w a hw => ?_, fun a ha => ?_, fun v w a hv hw => ?_⟩, rfl, rfl, fun i => rfl,
    fun q => ?_⟩
  · rw [(honly w a hw).2]
    exact (Finmap.mem_singleton _ _ _).mpr rfl
  · rw [(Finmap.mem_singleton _ _ _).mp ha]
    exact ⟨.nextSteps ridMainThread, rfl⟩
  · rw [(honly v a hv).1, (honly w a hw).1]
  · show (OwningProgram.atMain.place (.nextSteps q)).bind _ =
      (Finmap.insert ridMainThread ⟨ridMainThread, .threadStart⟩ ∅ :
        Finmap fun _ : RunnerId => Transition).lookup q
    rw [hpending, lookup_insert, Finmap.lookup_empty]
    split_ifs
    · rfl
    · rfl

/-- The main thread executes what is pending for it, and is about to abort. -/
private def aborts (o : OwningProgram) (a : ℕ) : OwningProgram :=
  (({ o with transitions := o.transitions.insert a ⟨ridMainThread, .processAbort⟩ } :
    OwningProgram).modelExecutionOf ridMainThread a).toOption.getD o

private def started : OwningProgram := aborts .atMain 1

private def aborted : OwningProgram := aborts started 2

private theorem history_started (allowed : OwningProgram → ℕ → Prop) :
    OwningProgram.History allowed .atMain ([.atMain] ++ [started]) started :=
  .execute (q := ridMainThread) (t := ⟨ridMainThread, .processAbort⟩) (a := 1) .start (by decide)
    (by rfl)

private theorem history_aborted (allowed : OwningProgram → ℕ → Prop) :
    OwningProgram.History allowed .atMain ([.atMain] ++ [started] ++ [aborted]) aborted :=
  .execute (q := ridMainThread) (t := ⟨ridMainThread, .processAbort⟩) (a := 2)
    (history_started allowed) (by decide) (by rfl)

private theorem inStep_startingFromMain : Program.startingFromMain.InStep := by
  have h : InStep exiting .atMain := Coordinator.initial_atMain.inStep
  exact h.model

/-- Going back to the beginning, the main thread is still about to abort. -/
theorem not_restores :
    ¬ ∀ (o₀ : OwningProgram) (p₀ : Program), o₀.Represents p₀ → p₀.InStep → p₀.trace = [] →
      ∀ hist o, OwningProgram.History (fun _ _ => True) o₀ hist o → ∀ n ≤ o.trace.length,
        ∃ o_n o', hist[n]? = some o_n ∧ o.restoreModelAtDepth n = .ok o' ∧ o'.SameModel o_n := by
  intro h
  obtain ⟨o_n, o', ho_n, hrun, hsame⟩ := h .atMain .startingFromMain
    OwningProgram.represents_atMain inStep_startingFromMain rfl _ _
    (history_started fun _ _ => True) 0 (Nat.zero_le _)
  obtain rfl := Option.some.inj ho_n
  have habort : (started.restoreModelAtDepth 0).toOption.bind
      (·.transitionAt (.nextSteps ridMainThread)) = some ⟨ridMainThread, .processAbort⟩ := by rfl
  rw [hrun] at habort
  cases habort.symm.trans (hsame.pending ridMainThread)

/-- Going back one step, the main thread has started and is about to abort. -/
theorem restores_started : ∃ o', aborted.restoreModelAtDepth 1 = .ok o' ∧ o'.SameModel started := by
  obtain ⟨o_n, o', ho_n, hrun, hiff⟩ :=
    (restores_iff OwningProgram.represents_atMain inStep_startingFromMain rfl).2 _ _
      (history_aborted _) (by decide) 1 (by decide)
  obtain rfl := Option.some.inj ho_n
  exact ⟨o', hrun, hiff.mpr (.inl le_rfl)⟩

end McMini
