import McMini.Model.Footprint

/-!
# The life cycle of threads

A runner is created at most once: it is added as an embryo by the transition which will
create it, and no other transition names it as the thread to create. Runners which are
past their creation in the initial state are not created again. Under this assumption a
runner whose creation is still to come is an embryo, so it is not active and has not
exited.
-/

namespace McMini

/-- The runners which the transitions of a history create. -/
def createTargets (tr : List Transition) : List RunnerId := tr.filterMap fun t => t.op.created

/-- Each runner is the target of at most one `thread_create`, counting the creations
before the initial state: a runner created by `tr` is an embryo initially. -/
def CreatedOnce (s₀ : State) (tr : List Transition) : Prop :=
  (createTargets tr).Nodup ∧ ∀ b ∈ createTargets tr, s₀.HasThread b ⟨.embryo⟩

variable {s₀ s s' : State} {tr ts : List Transition} {t : Transition} {b : RunnerId}

theorem mem_createTargets : b ∈ createTargets tr ↔ ∃ t ∈ tr, t.op = .threadCreate b := by
  simp [createTargets, Operation.created_eq_some]

theorem createTargets_append : createTargets (tr ++ ts) = createTargets tr ++ createTargets ts :=
  List.filterMap_append

/-- An embryo stays an embryo until it is created. -/
theorem hasThread_embryo_of_run (hrun : run s₀ tr = some s) (h₀ : s₀.HasThread b ⟨.embryo⟩)
    (hb : b ∉ createTargets tr) : s.HasThread b ⟨.embryo⟩ := by
  refine run_induction (P := fun tr s => b ∉ createTargets tr → s.HasThread b ⟨.embryo⟩)
    (fun _ => h₀) ?_ hrun hb
  intro tr s t s' _ ih hstep hb
  rw [createTargets_append, List.mem_append, not_or] at hb
  obtain ⟨th', hth', heffect⟩ := hstep.thread (ih hb.1)
  cases heffect with
  | unrelated _ => exact hth'
  | create hop => exact absurd (mem_createTargets.mpr ⟨t, by simp, hop⟩) hb.2
  | exit _ hrunning _ => cases hrunning

/-- A runner whose creation is still to come is an embryo. -/
theorem hasThread_embryo_of_created (hrun : run s₀ tr = some s)
    (honce : CreatedOnce s₀ (tr ++ ts)) (ht : t ∈ ts) (hop : t.op = .threadCreate b) :
    s.HasThread b ⟨.embryo⟩ := by
  have hb : b ∈ createTargets ts := mem_createTargets.mpr ⟨t, ht, hop⟩
  obtain ⟨hnodup, hembryo⟩ := honce
  rw [createTargets_append] at hnodup hembryo
  exact hasThread_embryo_of_run hrun (hembryo b (List.mem_append_right _ hb))
    fun h => List.disjoint_of_nodup_append hnodup h hb

theorem State.HasThread.not_active (h : s.HasThread b ⟨.embryo⟩) : ¬ s.Active b := by
  intro ha
  cases h.unique ha

theorem State.HasThread.not_exited (h : s.HasThread b ⟨.embryo⟩) : ¬ s.HasThread b ⟨.exited⟩ := by
  intro he
  cases h.unique he

/-- Two pending transitions do not create the same runner. -/
theorem CreatedOnce.ne {t₁ t₂ : Transition} {b₁ b₂ : RunnerId}
    (honce : CreatedOnce s₀ (tr ++ [t₁, t₂])) (h₁ : t₁.op = .threadCreate b₁)
    (h₂ : t₂.op = .threadCreate b₂) : b₁ ≠ b₂ := by
  have hnodup := honce.1
  rw [createTargets_append] at hnodup
  have h : createTargets [t₁, t₂] = [b₁, b₂] := by
    simp [createTargets, h₁, h₂, Operation.created]
  rw [h] at hnodup
  simpa using hnodup.of_append_right

end McMini
