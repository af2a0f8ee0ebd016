import McMini.Model.Relations

/-!
# Symmetry of dependency and co-enabledness

Both relations speak about two transitions, not about a first and a second one, and the search
consults them in either order. An entry for a pair of classes is registered in both orders, so
these answer alike. The entries for a single class do not always: an entry of the second class
is not reached when the first class has a row, and of two such entries the first argument's is
consulted (`DispatchTable.callOr_comm_iff`).

In the default tables `thread_create` and `thread_join` have these entries. The relations are
symmetric for two transitions exactly when what the entries would say is what the lookup in the
other order says (`relations_symmetric_iff`).
-/

namespace McMini

namespace DispatchTable

/-- The answers for a pair of classes do not depend on the order of the transitions. -/
def PairsSymmetric (table : DispatchTable) : Prop :=
  ∀ t₁ t₂ e, table.internalTable.lookup (t₁.typeId, t₂.typeId) = some e →
    ∃ e', table.internalTable.lookup (t₂.typeId, t₁.typeId) = some e' ∧ e' t₂ t₁ = e t₁ t₂

/-- No class has both a row and an entry of its own. -/
def EntriesApart (table : DispatchTable) : Prop :=
  ∀ T, table.hasRow T = true → table.interfaceMemberFunctionTable.lookup T = none

/-- The entries for single classes give what the lookup in the other order gives. -/
structure AgreesOn (table : DispatchTable) (fallback : Bool) (t₁ t₂ : Transition) : Prop where
  rowLeft : table.hasRow t₁.typeId = true → table.hasRow t₂.typeId = false →
    ∀ e, table.interfaceMemberFunctionTable.lookup t₂.typeId = some e → e t₂ t₁ = fallback
  rowRight : table.hasRow t₂.typeId = true → table.hasRow t₁.typeId = false →
    ∀ e, table.interfaceMemberFunctionTable.lookup t₁.typeId = some e → e t₁ t₂ = fallback
  noRow : table.hasRow t₁.typeId = false → table.hasRow t₂.typeId = false →
    ∀ e₁ e₂, table.interfaceMemberFunctionTable.lookup t₁.typeId = some e₁ →
      table.interfaceMemberFunctionTable.lookup t₂.typeId = some e₂ → e₁ t₁ t₂ = e₂ t₂ t₁

variable {table : DispatchTable} {t₁ t₂ : Transition} {fallback : Bool} {T T₁ T₂ : TransitionClass}
  {callback : DispatchEntry}

theorem hasRow_of_lookup {e : DispatchEntry}
    (h : table.internalTable.lookup (T₁, T₂) = some e) : table.hasRow T₁ = true := by
  obtain ⟨l₁, l₂, heq, -⟩ := List.lookup_eq_some_iff.mp h
  simp [hasRow, heq]

theorem lookup_eq_none_of_not_hasRow (h : table.hasRow T₁ = false) :
    table.internalTable.lookup (T₁, T₂) = none := by
  rw [Option.eq_none_iff_forall_ne_some]
  intro e he
  rw [hasRow_of_lookup he] at h
  exact Bool.noConfusion h

/-! ### Registration -/

theorem pairsSymmetric_empty : ({} : DispatchTable).PairsSymmetric := by
  intro t₁ t₂ e h
  simp at h

theorem PairsSymmetric.registerInterfaceEntry (h : table.PairsSymmetric) :
    (table.registerInterfaceEntry T callback).PairsSymmetric := h

/-- Registering a pair replaces the entries for the pair in both orders. -/
theorem lookup_registerEntry {A B : TransitionClass} :
    (table.registerEntry T₁ T₂ callback).internalTable.lookup (A, B) =
      if A = T₂ ∧ B = T₁ then some fun t₁ t₂ => callback t₂ t₁
      else if A = T₁ ∧ B = T₂ then some callback
      else table.internalTable.lookup (A, B) := by
  have lookup_cons : ∀ {C D : TransitionClass} {e : DispatchEntry} {l},
      List.lookup (A, B) (((C, D), e) :: l) =
        if A = C ∧ B = D then some e else List.lookup (A, B) l := by
    intro C D e l
    by_cases h : A = C ∧ B = D
    · rw [if_pos h, h.1, h.2, List.lookup_cons, beq_self_eq_true]
    · have hne : ((A, B) == (C, D)) = false := by simpa using h
      rw [if_neg h, List.lookup_cons, hne]
  rw [DispatchTable.registerEntry, lookup_cons, lookup_cons]

/-- Registering a pair keeps the symmetry; the method of a class which accepts its own class
must be symmetric itself. -/
theorem PairsSymmetric.registerEntry (h : table.PairsSymmetric)
    (hself : T₁ = T₂ → ∀ t₁ t₂, callback t₁ t₂ = callback t₂ t₁) :
    (table.registerEntry T₁ T₂ callback).PairsSymmetric := by
  intro t₁ t₂ e he
  rw [lookup_registerEntry] at he ⊢
  by_cases h₂₁ : t₁.typeId = T₂ ∧ t₂.typeId = T₁
  · rw [if_pos h₂₁, Option.some.injEq] at he
    obtain ⟨rfl, rfl⟩ := h₂₁
    subst he
    by_cases heq : t₂.typeId = t₁.typeId
    · exact ⟨_, if_pos ⟨heq, heq.symm⟩, hself heq t₁ t₂⟩
    · exact ⟨callback, by rw [if_neg fun h => heq h.1, if_pos ⟨rfl, rfl⟩], rfl⟩
  · rw [if_neg h₂₁] at he
    by_cases h₁₂ : t₁.typeId = T₁ ∧ t₂.typeId = T₂
    · rw [if_pos h₁₂, Option.some.injEq] at he
      exact ⟨_, if_pos h₁₂.symm, he ▸ rfl⟩
    · rw [if_neg h₁₂] at he
      rw [if_neg fun h => h₁₂ h.symm, if_neg fun h => h₂₁ h.symm]
      exact h t₁ t₂ e he

/-! ### The lookup -/

/-- The lookup for a first transition whose class has a row. -/
theorem callOr_of_hasRow (h : table.hasRow t₁.typeId = true) :
    table.callOr fallback t₁ t₂ =
      ((table.internalTable.lookup (t₁.typeId, t₂.typeId)).map (· t₁ t₂)).getD fallback := by
  rw [callOr, if_pos h]
  cases table.internalTable.lookup (t₁.typeId, t₂.typeId) <;> rfl

/-- The lookup for a first transition whose class has no row. -/
theorem callOr_of_not_hasRow (h : table.hasRow t₁.typeId = false) :
    table.callOr fallback t₁ t₂ =
      (((table.interfaceMemberFunctionTable.lookup t₁.typeId).map (· t₁ t₂)).getD
        (((table.interfaceMemberFunctionTable.lookup t₂.typeId).map (· t₂ t₁)).getD
          fallback)) := by
  rw [callOr, if_neg (by simp [h])]
  cases table.interfaceMemberFunctionTable.lookup t₁.typeId with
  | some e => rfl
  | none => cases table.interfaceMemberFunctionTable.lookup t₂.typeId <;> rfl

theorem agreesOn_comm : table.AgreesOn fallback t₁ t₂ ↔ table.AgreesOn fallback t₂ t₁ := by
  have swap : ∀ {t₁ t₂}, table.AgreesOn fallback t₁ t₂ → table.AgreesOn fallback t₂ t₁ :=
    fun h => ⟨h.rowRight, h.rowLeft, fun h₂ h₁ e₂ e₁ he₂ he₁ => (h.noRow h₁ h₂ e₁ e₂ he₁ he₂).symm⟩
  exact ⟨swap, swap⟩

/-- Where the class of one of the two has a row, the other one's entry decides. -/
private theorem callOr_comm_iff_of_row (hpairs : table.PairsSymmetric)
    (hapart : table.EntriesApart) (h₁ : table.hasRow t₁.typeId = true)
    (h₂ : table.hasRow t₂.typeId = false) :
    table.callOr fallback t₁ t₂ = table.callOr fallback t₂ t₁ ↔
      table.AgreesOn fallback t₁ t₂ := by
  have hnone : table.internalTable.lookup (t₁.typeId, t₂.typeId) = none := by
    rw [Option.eq_none_iff_forall_ne_some]
    intro e he
    obtain ⟨e', he', -⟩ := hpairs t₁ t₂ e he
    rw [lookup_eq_none_of_not_hasRow h₂] at he'
    cases he'
  rw [callOr_of_hasRow h₁, callOr_of_not_hasRow h₂, hnone, hapart _ h₁]
  constructor
  · intro h
    refine ⟨fun _ _ e he => ?_, fun _ h₁' => ?_, fun h₁' => ?_⟩
    · rw [he] at h
      exact h.symm
    · rw [h₁] at h₁'
      exact Bool.noConfusion h₁'
    · rw [h₁] at h₁'
      exact Bool.noConfusion h₁'
  · intro h
    cases he : table.interfaceMemberFunctionTable.lookup t₂.typeId with
    | none => rfl
    | some e => exact (h.rowLeft h₁ h₂ e he).symm

/-- The lookup is symmetric for two transitions exactly when the entries for single classes
agree on them. -/
theorem callOr_comm_iff (hpairs : table.PairsSymmetric) (hapart : table.EntriesApart) :
    table.callOr fallback t₁ t₂ = table.callOr fallback t₂ t₁ ↔
      table.AgreesOn fallback t₁ t₂ := by
  cases h₁ : table.hasRow t₁.typeId with
  | true =>
    cases h₂ : table.hasRow t₂.typeId with
    | true =>
      -- both have a row: only the entries for pairs are looked at
      refine iff_of_true ?_ ⟨fun _ h => ?_, fun _ h => ?_, fun h => ?_⟩
      · rw [callOr_of_hasRow h₁, callOr_of_hasRow h₂]
        cases he : table.internalTable.lookup (t₁.typeId, t₂.typeId) with
        | some e =>
          obtain ⟨e', he', heq⟩ := hpairs t₁ t₂ e he
          rw [he']
          exact heq.symm
        | none =>
          cases he' : table.internalTable.lookup (t₂.typeId, t₁.typeId) with
          | none => rfl
          | some e' =>
            obtain ⟨e, he'', -⟩ := hpairs t₂ t₁ e' he'
            rw [he] at he''
            cases he''
      · exact Bool.noConfusion (h₂.symm.trans h)
      · exact Bool.noConfusion (h₁.symm.trans h)
      · exact Bool.noConfusion (h₁.symm.trans h)
    | false => exact callOr_comm_iff_of_row hpairs hapart h₁ h₂
  | false =>
    cases h₂ : table.hasRow t₂.typeId with
    | true =>
      -- it is the second one which has a row
      rw [eq_comm, agreesOn_comm]
      exact callOr_comm_iff_of_row hpairs hapart h₂ h₁
    | false =>
      -- neither has one: the first entry for a single class decides
      rw [callOr_of_not_hasRow h₁, callOr_of_not_hasRow h₂]
      cases he₁ : table.interfaceMemberFunctionTable.lookup t₁.typeId with
      | none =>
        refine iff_of_true ?_ ⟨fun h => ?_, fun h => ?_, fun _ _ e₁ e₂ h => ?_⟩
        · cases table.interfaceMemberFunctionTable.lookup t₂.typeId <;> rfl
        · exact Bool.noConfusion (h₁.symm.trans h)
        · exact Bool.noConfusion (h₂.symm.trans h)
        · cases he₁.symm.trans h
      | some e₁ =>
        cases he₂ : table.interfaceMemberFunctionTable.lookup t₂.typeId with
        | none =>
          refine iff_of_true rfl ⟨fun h => ?_, fun h => ?_, fun _ _ e₁ e₂ _ h => ?_⟩
          · exact Bool.noConfusion (h₁.symm.trans h)
          · exact Bool.noConfusion (h₂.symm.trans h)
          · cases he₂.symm.trans h
        | some e₂ =>
          constructor
          · intro h
            refine ⟨fun h' => ?_, fun h' => ?_, fun _ _ e₁' e₂' he₁' he₂' => ?_⟩
            · exact Bool.noConfusion (h₁.symm.trans h')
            · exact Bool.noConfusion (h₂.symm.trans h')
            · obtain rfl := Option.some.inj (he₁.symm.trans he₁')
              obtain rfl := Option.some.inj (he₂.symm.trans he₂')
              exact h
          · intro h
            exact h.noRow h₁ h₂ e₁ e₂ he₁ he₂

end DispatchTable

/-! ### The default tables -/

section

variable {t₁ t₂ : Transition}

theorem defaultDependencies_pairsSymmetric : defaultDependencies.PairsSymmetric := by
  refine .registerEntry (.registerEntry (.registerEntry (.registerEntry (.registerEntry
    (.registerEntry (.registerInterfaceEntry (.registerInterfaceEntry
      DispatchTable.pairsSymmetric_empty)) ?_) ?_) ?_) ?_) ?_) ?_
  -- `mutex_lock` is the class which accepts itself
  · intro h
    cases h
  · intro _ t₁ t₂
    exact Bool.beq_comm
  all_goals
    intro h
    cases h

theorem defaultCoenabledness_pairsSymmetric : defaultCoenabledness.PairsSymmetric := by
  refine .registerEntry (.registerEntry (.registerEntry (.registerEntry (.registerEntry
    (.registerEntry (.registerEntry (.registerInterfaceEntry (.registerInterfaceEntry
      DispatchTable.pairsSymmetric_empty)) ?_) ?_) ?_) ?_) ?_) ?_) ?_
  all_goals
    intro h
    cases h

/-- The entries for single classes are those of the classes with a target. -/
theorem lookup_defaultDependencies (t : Transition) :
    defaultDependencies.interfaceMemberFunctionTable.lookup t.typeId =
      if t.target.isSome then some fun self u => (self.target == some u.executor) == true
      else none := by
  simp only [beq_true]
  obtain ⟨p, op⟩ := t
  cases op <;> rfl

theorem lookup_defaultCoenabledness (t : Transition) :
    defaultCoenabledness.interfaceMemberFunctionTable.lookup t.typeId =
      if t.target.isSome then some fun self u => (self.target == some u.executor) == false
      else none := by
  simp only [beq_false]
  obtain ⟨p, op⟩ := t
  cases op <;> rfl

theorem defaultDependencies_entriesApart : defaultDependencies.EntriesApart := by
  intro T h
  cases T <;> first | rfl | cases h

theorem defaultCoenabledness_entriesApart : defaultCoenabledness.EntriesApart := by
  intro T h
  cases T <;> first | rfl | cases h

/-- Where the lookup depends on the order of two transitions, it gives the same in both: a
transition whose target is the executor of the other is told from one whose target is not only
by the entry of its class, which says `answer` of the former. -/
structure TargetsAgree (table : DispatchTable) (answer : Bool) (t₁ t₂ : Transition) : Prop where
  rowLeft : table.hasRow t₁.typeId = true → t₂.target.isSome = true →
    (t₂.target == some t₁.executor) = answer
  rowRight : table.hasRow t₂.typeId = true → t₁.target.isSome = true →
    (t₁.target == some t₂.executor) = answer
  bothTarget : t₁.target.isSome = true → t₂.target.isSome = true →
    (t₁.target == some t₂.executor) = (t₂.target == some t₁.executor)

/-- The single-class entries agree when the transitions with a target do. -/
theorem agreesOn_iff_targetsAgree {table : DispatchTable} {answer : Bool}
    (hapart : table.EntriesApart)
    (hlookup : ∀ t : Transition, table.interfaceMemberFunctionTable.lookup t.typeId =
      if t.target.isSome then some fun self u => (self.target == some u.executor) == answer
      else none) :
    table.AgreesOn true t₁ t₂ ↔ TargetsAgree table answer t₁ t₂ := by
  have noRow : ∀ {t : Transition}, t.target.isSome = true → table.hasRow t.typeId = false := by
    intro t ht
    by_contra hrow
    have hnone := hapart _ (Bool.not_eq_false _ ▸ hrow)
    rw [hlookup, if_pos ht] at hnone
    cases hnone
  have lookup_eq : ∀ {t : Transition} {e},
      table.interfaceMemberFunctionTable.lookup t.typeId = some e →
        t.target.isSome = true ∧ ∀ self u, e self u = ((self.target == some u.executor) == answer) := by
    intro t e he
    rw [hlookup] at he
    split_ifs at he with h
    obtain rfl := Option.some.inj he
    exact ⟨h, fun _ _ => rfl⟩
  have cancel : ∀ a b c : Bool, (a == c) = (b == c) → a = b := by decide
  constructor
  · intro h
    refine ⟨fun hrow ht => ?_, fun hrow ht => ?_, fun ht₁ ht₂ => ?_⟩
    · simpa using h.rowLeft hrow (noRow ht) _ ((hlookup t₂).trans (if_pos ht))
    · simpa using h.rowRight hrow (noRow ht) _ ((hlookup t₁).trans (if_pos ht))
    · have heq := h.noRow (noRow ht₁) (noRow ht₂) _ _ ((hlookup t₁).trans (if_pos ht₁))
        ((hlookup t₂).trans (if_pos ht₂))
      exact cancel _ _ _ heq
  · intro h
    refine ⟨fun hrow _ e he => ?_, fun hrow _ e he => ?_, fun _ _ e₁ e₂ he₁ he₂ => ?_⟩
    · obtain ⟨ht, he⟩ := lookup_eq he
      rw [he, h.rowLeft hrow ht, beq_self_eq_true]
    · obtain ⟨ht, he⟩ := lookup_eq he
      rw [he, h.rowRight hrow ht, beq_self_eq_true]
    · obtain ⟨ht₁, he₁⟩ := lookup_eq he₁
      obtain ⟨ht₂, he₂⟩ := lookup_eq he₂
      rw [he₁, he₂, h.bothTarget ht₁ ht₂]

/-- **Symmetry of the relations.** Dependency and co-enabledness are symmetric for two transitions
if and only if these have one executor, or the entries of `thread_create` and `thread_join`
agree with what the lookup gives in the other order. -/
theorem relations_symmetric_iff :
    (areDependent defaultDependencies t₁ t₂ = areDependent defaultDependencies t₂ t₁ ∧
      areCoenabled defaultCoenabledness t₁ t₂ = areCoenabled defaultCoenabledness t₂ t₁) ↔
    t₁.executor = t₂.executor ∨
      TargetsAgree defaultDependencies true t₁ t₂ ∧
        TargetsAgree defaultCoenabledness false t₁ t₂ := by
  by_cases hexec : t₁.executor = t₂.executor
  · refine iff_of_true ?_ (.inl hexec)
    simp [areDependent, areCoenabled, hexec]
  · have hdep : (t₁.executor == t₂.executor) = false := by simpa using hexec
    have hdep' : (t₂.executor == t₁.executor) = false := by simpa using Ne.symm hexec
    rw [or_iff_right hexec, areDependent, areDependent, areCoenabled, areCoenabled, bne, bne,
      hdep, hdep', Bool.false_or, Bool.false_or, Bool.not_false, Bool.true_and, Bool.true_and,
      DispatchTable.callOr_comm_iff defaultDependencies_pairsSymmetric
        defaultDependencies_entriesApart,
      DispatchTable.callOr_comm_iff defaultCoenabledness_pairsSymmetric
        defaultCoenabledness_entriesApart,
      agreesOn_iff_targetsAgree defaultDependencies_entriesApart lookup_defaultDependencies,
      agreesOn_iff_targetsAgree defaultCoenabledness_entriesApart lookup_defaultCoenabledness]

end

/-- Creating a runner is not said to depend on the lock of a mutex by another runner, but the lock
is said to depend on the creation. -/
theorem create_lock_not_symmetric :
    areDependent defaultDependencies ⟨0, .threadCreate 5⟩ ⟨1, .mutexLock 7⟩ ≠
        areDependent defaultDependencies ⟨1, .mutexLock 7⟩ ⟨0, .threadCreate 5⟩ ∧
      areCoenabled defaultCoenabledness ⟨0, .threadCreate 1⟩ ⟨1, .mutexLock 7⟩ ≠
        areCoenabled defaultCoenabledness ⟨1, .mutexLock 7⟩ ⟨0, .threadCreate 1⟩ := by
  decide

end McMini
