import Mathlib.Data.List.Induction

/-!
# Runs of a partial step function

A deterministic labelled transition system is a partial step function
`step : ι → σ → Option σ`: the label `i` is *enabled* in the state `s` when `step i s` is
defined. `runFrom step s is` executes the labels `is` one after the other and is defined
when each of them is enabled where it is reached.

The rules proved here are the ones invariants need: runs split at every position
(`runFrom_append`), and a property of histories and states which holds initially and which
every enabled label preserves holds after every run (`runFrom_induction`); so does one which is
preserved under a condition on the labels, if they all meet it (`runFrom_invariant_along`).

A scheduler may also attempt labels which are not enabled (`attempts`); those which were
enabled form a run (`runFrom_executed`).

`SinceLast on off initially is` is the property of a history that the last event among
those satisfying `on` or `off` satisfies `on`; it is how facts about the past are read off
a list of labels (`sinceLast_concat`).
-/

namespace McMini.Foundation

variable {ι σ : Type*} {step : ι → σ → Option σ}

/-- Executes a list of labels, each of which must be enabled where it is reached. -/
def runFrom (step : ι → σ → Option σ) : σ → List ι → Option σ
  | s, [] => some s
  | s, i :: is => (step i s).bind fun s' => runFrom step s' is

@[simp]
theorem runFrom_nil (s : σ) : runFrom step s [] = some s := rfl

theorem runFrom_cons (s : σ) (i : ι) (is : List ι) :
    runFrom step s (i :: is) = (step i s).bind fun s' => runFrom step s' is := rfl

theorem runFrom_cons_eq_some {s s'' : σ} {i : ι} {is : List ι} :
    runFrom step s (i :: is) = some s'' ↔
      ∃ s', step i s = some s' ∧ runFrom step s' is = some s'' := by
  rw [runFrom_cons, Option.bind_eq_some_iff]

/-- A run of a concatenation is a run of the first part continued by one of the second. -/
theorem runFrom_append (s : σ) (is js : List ι) :
    runFrom step s (is ++ js) = (runFrom step s is).bind fun s' => runFrom step s' js := by
  induction is generalizing s with
  | nil => rfl
  | cons i is ih =>
    rw [List.cons_append, runFrom_cons, runFrom_cons, Option.bind_assoc]
    exact congrArg _ (funext fun s' => ih s')

theorem runFrom_append_eq_some {s s'' : σ} {is js : List ι} :
    runFrom step s (is ++ js) = some s'' ↔
      ∃ s', runFrom step s is = some s' ∧ runFrom step s' js = some s'' := by
  rw [runFrom_append, Option.bind_eq_some_iff]

/-- The last label of a run is enabled in the state the rest of the run reaches. -/
theorem runFrom_concat_eq_some {s s'' : σ} {is : List ι} {i : ι} :
    runFrom step s (is ++ [i]) = some s'' ↔
      ∃ s', runFrom step s is = some s' ∧ step i s' = some s'' := by
  rw [runFrom_append_eq_some]
  simp [runFrom_cons_eq_some]

/-- The induction rule for properties of the executed labels and of the state reached. -/
theorem runFrom_induction {s₀ : σ} {P : List ι → σ → Prop} (init : P [] s₀)
    (preserved : ∀ is s i s', runFrom step s₀ is = some s → P is s → step i s = some s' →
      P (is ++ [i]) s') :
    ∀ {is s}, runFrom step s₀ is = some s → P is s := by
  intro is
  induction is using List.reverseRecOn with
  | nil =>
    intro s h
    obtain rfl : s₀ = s := by simpa using h
    exact init
  | append_singleton is i ih =>
    intro s h
    obtain ⟨s', hs', hstep⟩ := runFrom_concat_eq_some.mp h
    exact preserved is s' i s hs' (ih hs') hstep

/-- An invariant of states, which does not look at the history. -/
theorem runFrom_invariant {P : σ → Prop}
    (preserved : ∀ s i s', P s → step i s = some s' → P s') {s s' : σ} {is : List ι}
    (hs : P s) (h : runFrom step s is = some s') : P s' :=
  runFrom_induction (P := fun _ s => P s) hs (fun _ s i s' _ hP hi => preserved s i s' hP hi) h

/-- Every label of the list has the property in the state in which it is executed. -/
def HoldsAlong (step : ι → σ → Option σ) (Q : σ → ι → Prop) : σ → List ι → Prop
  | _, [] => True
  | s, i :: is => Q s i ∧ ∀ s' ∈ step i s, HoldsAlong step Q s' is

instance HoldsAlong.decidable {Q : σ → ι → Prop} [∀ s i, Decidable (Q s i)] :
    ∀ s is, Decidable (HoldsAlong step Q s is)
  | _, [] => .isTrue trivial
  | s, i :: is =>
    have : DecidablePred fun s' => HoldsAlong step Q s' is := fun s' => HoldsAlong.decidable s' is
    inferInstanceAs (Decidable (Q s i ∧ ∀ s' ∈ step i s, HoldsAlong step Q s' is))

theorem HoldsAlong.mono {Q Q' : σ → ι → Prop} {s : σ} {is : List ι} (h : HoldsAlong step Q s is)
    (hQ : ∀ s i, Q s i → Q' s i) : HoldsAlong step Q' s is := by
  induction is generalizing s with
  | nil => trivial
  | cons i is ih => exact ⟨hQ s i h.1, fun s' hs' => ih (h.2 s' hs')⟩

/-- An invariant which the labels with a property preserve. -/
theorem runFrom_invariant_along {P : σ → Prop} {Q : σ → ι → Prop}
    (preserved : ∀ s i s', P s → Q s i → step i s = some s' → P s') {s s' : σ} {is : List ι}
    (hs : P s) (hQ : HoldsAlong step Q s is) (h : runFrom step s is = some s') : P s' := by
  induction is generalizing s with
  | nil =>
    obtain rfl : s = s' := by simpa using h
    exact hs
  | cons i is ih =>
    obtain ⟨s₁, hstep, hrest⟩ := runFrom_cons_eq_some.mp h
    exact ih (preserved s i s₁ hs hQ.1 hstep) (hQ.2 s₁ hstep) hrest

/-- A property holds in all states of a run exactly if its labels have the property on which it
depends whether a step keeps the first one. The states may be assumed to satisfy `B`. -/
theorem holdsAlong_iff {I P B : σ → Prop} {Q : σ → ι → Prop} (sound : ∀ s, I s → P s)
    (step_iff : ∀ s i s', I s → B s' → step i s = some s' →
      (P s' ↔ Q s i) ∧ (Q s i → I s')) {s s' : σ} {is : List ι} (hs : I s)
    (hB : ∀ pre u, pre <+: is → runFrom step s pre = some u → B u)
    (hrun : runFrom step s is = some s') :
    (∀ pre u, pre <+: is → runFrom step s pre = some u → P u) ↔ HoldsAlong step Q s is := by
  induction is generalizing s with
  | nil =>
    refine iff_of_true (fun pre u hpre hu => ?_) trivial
    rw [List.prefix_nil.mp hpre] at hu
    obtain rfl := Option.some.inj hu
    exact sound _ hs
  | cons i is ih =>
    obtain ⟨s₁, hstep, hrest⟩ := runFrom_cons_eq_some.mp hrun
    -- a beginning of the rest is, behind the first label, a beginning of the run
    have hcons : ∀ {pre u}, pre <+: is → runFrom step s₁ pre = some u →
        i :: pre <+: i :: is ∧ runFrom step s (i :: pre) = some u :=
      fun hpre hu => ⟨List.cons_prefix_cons.mpr ⟨rfl, hpre⟩,
        runFrom_cons_eq_some.mpr ⟨s₁, hstep, hu⟩⟩
    have hB₁ : B s₁ := by
      obtain ⟨hpre, hu⟩ := hcons List.nil_prefix (runFrom_nil s₁)
      exact hB _ _ hpre hu
    have hBrest : ∀ pre u, pre <+: is → runFrom step s₁ pre = some u → B u := by
      intro pre u hpre hu
      obtain ⟨hpre, hu⟩ := hcons hpre hu
      exact hB _ _ hpre hu
    -- the first label decides about the next state, and the invariant carries on to it
    obtain ⟨hiff, hinv⟩ := step_iff s i s₁ hs hB₁ hstep
    constructor
    · intro h
      have hQ : Q s i := by
        obtain ⟨hpre, hu⟩ := hcons List.nil_prefix (runFrom_nil s₁)
        exact hiff.mp (h _ _ hpre hu)
      refine ⟨hQ, fun s₂ hs₂ => ?_⟩
      obtain rfl := Option.some.inj (hstep.symm.trans hs₂)
      refine (ih (hinv hQ) hBrest hrest).mp fun pre u hpre hu => ?_
      obtain ⟨hpre, hu⟩ := hcons hpre hu
      exact h _ _ hpre hu
    · rintro ⟨hQ, hall⟩ pre u hpre hu
      cases pre with
      | nil =>
        obtain rfl := Option.some.inj hu
        exact sound _ hs
      | cons j pre =>
        obtain ⟨rfl, hrestpre⟩ := List.cons_prefix_cons.mp hpre
        obtain ⟨s₂, hs₂, hu⟩ := runFrom_cons_eq_some.mp hu
        obtain rfl := Option.some.inj (hstep.symm.trans hs₂)
        exact (ih (hinv hQ) hBrest hrest).mpr (hall s₁ hstep) pre u hrestpre hu

/-- A size which no step of a run diminishes is largest at its end. -/
theorem size_le_last {K : σ → Prop} {size : σ → ℕ}
    (grows : ∀ s i s', K s → step i s = some s' → K s' ∧ size s ≤ size s') {s s' u : σ}
    {is pre : List ι} (hs : K s) (hrun : runFrom step s is = some s') (hpre : pre <+: is)
    (hu : runFrom step s pre = some u) : size u ≤ size s' := by
  have hgrows : ∀ {s s' : σ} {is : List ι}, K s → runFrom step s is = some s' →
      K s' ∧ size s ≤ size s' := by
    intro s s' is hs hrun
    refine runFrom_invariant (P := fun u => K u ∧ size s ≤ size u) ?_ ⟨hs, Nat.le_refl _⟩ hrun
    intro u i u' hu hstep
    obtain ⟨hK, hle⟩ := grows u i u' hu.1 hstep
    exact ⟨hK, Nat.le_trans hu.2 hle⟩
  obtain ⟨rest, rfl⟩ := hpre
  obtain ⟨v, hv, hrest⟩ := runFrom_append_eq_some.mp hrun
  obtain rfl := Option.some.inj (hu.symm.trans hv)
  exact (hgrows (hgrows hs hu).1 hrest).2

/-- What holds of every label of a history and the labels before it holds of the last label,
and in the history without it. -/
theorem forall_prefix_concat {P : List ι → ι → Prop} {is : List ι} {i : ι} :
    (∀ pre j, pre ++ [j] <+: is ++ [i] → P pre j) ↔
      (∀ pre j, pre ++ [j] <+: is → P pre j) ∧ P is i := by
  constructor
  · intro h
    exact ⟨fun pre j hpre => h pre j (hpre.trans (List.prefix_append _ _)),
      h is i List.prefix_rfl⟩
  · rintro ⟨h, hi⟩ pre j hpre
    rcases List.prefix_concat_iff.mp hpre with heq | hpre
    · obtain ⟨rfl, hj⟩ := List.append_inj' heq rfl
      obtain rfl := List.singleton_inj.mp hj
      exact hi
    · exact h pre j hpre

/-- Likewise, one label after the other from the first. -/
theorem forall_prefix_cons {P : List ι → ι → Prop} {is : List ι} {i : ι} :
    (∀ pre j, pre ++ [j] <+: i :: is → P pre j) ↔
      P [] i ∧ ∀ pre j, pre ++ [j] <+: is → P (i :: pre) j := by
  constructor
  · intro h
    refine ⟨h [] i (by simp), fun pre j hpre => h (i :: pre) j ?_⟩
    exact List.cons_prefix_cons.mpr ⟨rfl, hpre⟩
  · rintro ⟨hi, h⟩ pre j hpre
    cases pre with
    | nil => exact (List.cons_prefix_cons.mp hpre).1 ▸ hi
    | cons k pre =>
      obtain ⟨rfl, hrest⟩ := List.cons_prefix_cons.mp hpre
      exact h pre j hrest

/-! ### Attempts -/

/-- Attempts a label: where it is not enabled, nothing happens. -/
def attempt (step : ι → σ → Option σ) (s : σ) (i : ι) : σ := (step i s).getD s

/-- Attempts the labels of a list one after the other. -/
def attempts (step : ι → σ → Option σ) (s : σ) (is : List ι) : σ := is.foldl (attempt step) s

/-- Those of the attempted labels which were enabled. -/
def executed (step : ι → σ → Option σ) : σ → List ι → List ι
  | _, [] => []
  | s, i :: is =>
    if (step i s).isSome then i :: executed step (attempt step s i) is
    else executed step (attempt step s i) is

@[simp]
theorem attempts_nil {s : σ} : attempts step s [] = s := rfl

@[simp]
theorem attempts_concat {s : σ} {is : List ι} {i : ι} :
    attempts step s (is ++ [i]) = attempt step (attempts step s is) i := by
  simp [attempts]

theorem attempt_of_eq_some {s s' : σ} {i : ι} (h : step i s = some s') :
    attempt step s i = s' := by
  rw [attempt, h, Option.getD_some]

theorem attempt_of_eq_none {s : σ} {i : ι} (h : step i s = none) : attempt step s i = s := by
  rw [attempt, h, Option.getD_none]

/-- The enabled ones of the attempted labels form a run. -/
theorem runFrom_executed {s : σ} {is : List ι} :
    runFrom step s (executed step s is) = some (attempts step s is) := by
  induction is generalizing s with
  | nil => rfl
  | cons i is ih =>
    rw [executed, attempts, List.foldl_cons]
    split_ifs with h
    · obtain ⟨s', hs'⟩ := Option.isSome_iff_exists.mp h
      rw [runFrom_cons, hs', attempt_of_eq_some hs']
      exact ih
    · rw [attempt_of_eq_none (by simpa using h)]
      exact ih

theorem executed_concat {s : σ} {is : List ι} {i : ι} :
    executed step s (is ++ [i]) =
      executed step s is ++ if (step i (attempts step s is)).isSome then [i] else [] := by
  induction is generalizing s with
  | nil => by_cases h : (step i s).isSome <;> simp [executed, h]
  | cons j is ih =>
    rw [List.cons_append, executed, executed, ih, attempts, attempts, List.foldl_cons]
    split_ifs <;> simp

/-! ### What happened last -/

/-- The last label of the history which turns the property on has not been followed by one
which turns it off; or no label did either, and the property held initially. -/
def SinceLast (on off : ι → Prop) (initially : Prop) (is : List ι) : Prop :=
  (∃ pre i post, is = pre ++ i :: post ∧ on i ∧ ∀ j ∈ post, ¬ on j ∧ ¬ off j) ∨
    initially ∧ ∀ j ∈ is, ¬ on j ∧ ¬ off j

section SinceLast

variable {on off : ι → Prop} {initially : Prop} {is : List ι} {i : ι}

@[simp]
theorem sinceLast_nil : SinceLast on off initially [] ↔ initially := by
  simp [SinceLast]

/-- The last label decides, if it turns the property on or off. -/
theorem sinceLast_concat :
    SinceLast on off initially (is ++ [i]) ↔
      on i ∨ ¬ off i ∧ SinceLast on off initially is := by
  constructor
  · rintro (⟨pre, j, post, heq, hj, hpost⟩ | ⟨hinit, hall⟩)
    · rcases List.eq_nil_or_concat post with rfl | ⟨post, k, rfl⟩
      · obtain ⟨-, rfl⟩ : is = pre ∧ i = j := by simpa using heq
        exact .inl hj
      · have heq' : is ++ [i] = (pre ++ j :: post) ++ [k] := by rw [heq]; simp
        obtain ⟨rfl, hik⟩ := List.append_inj' heq' rfl
        obtain rfl : i = k := List.singleton_inj.mp hik
        exact .inr ⟨(hpost i (by simp)).2, .inl ⟨pre, j, post, rfl, hj,
          fun l hl => hpost l (by simp [hl])⟩⟩
    · exact .inr ⟨(hall i (by simp)).2, .inr ⟨hinit, fun j hj => hall j (by simp [hj])⟩⟩
  · intro h
    by_cases hon : on i
    · exact .inl ⟨is, i, [], rfl, hon, by simp⟩
    · obtain ⟨hoff, h⟩ := h.resolve_left hon
      have extend : ∀ js : List ι, (∀ j ∈ js, ¬ on j ∧ ¬ off j) →
          ∀ j ∈ js ++ [i], ¬ on j ∧ ¬ off j := by
        intro js hjs j hj
        rcases List.mem_append.mp hj with hj | hj
        · exact hjs j hj
        · obtain rfl := List.mem_singleton.mp hj
          exact ⟨hon, hoff⟩
      rcases h with ⟨pre, j, post, rfl, hj, hpost⟩ | ⟨hinit, hall⟩
      · exact .inl ⟨pre, j, post ++ [i], by simp, hj, extend post hpost⟩
      · exact .inr ⟨hinit, extend is hall⟩

end SinceLast

end McMini.Foundation
