import Mathlib.Data.Finset.Basic
import Mathlib.Data.Finset.Insert
import Mathlib.Data.List.Induction

/-!
# Deferred choices from nested groups

From each group of a list, in order, one element which was not chosen before is chosen, if
there is one. `Choice gs M` says that `M` can be the set of the chosen elements.

When every group contains the groups before it, the choices need not be made in advance:
an element can be chosen exactly when some group contains it, and taking it away leaves the
choices from the list in which the first group containing it is deleted and the element is
removed from all others (`choice_consume`). The key fact is an exchange: a chosen set
without the element can be changed into one with it (`Choice.exchange`).
-/

namespace McMini.Foundation

variable {α : Type*}

section Nested

variable {gs : List (Finset α)} {g : Finset α} {t : α}

/-- The groups are nested: each contains those before it. -/
abbrev Nested (gs : List (Finset α)) : Prop := gs.Pairwise (· ⊆ ·)

theorem nested_concat : Nested (gs ++ [g]) ↔ Nested gs ∧ ∀ k ∈ gs, k ⊆ g := by
  simp [Nested, List.pairwise_append]

/-- In a nested list, an element of some group is in the last group. -/
theorem Nested.mem_last (hn : Nested (gs ++ [g])) (ht : ∃ k ∈ gs ++ [g], t ∈ k) : t ∈ g := by
  obtain ⟨k, hk, htk⟩ := ht
  rcases List.mem_append.mp hk with hk | hk
  · exact (nested_concat.mp hn).2 k hk htk
  · exact List.mem_singleton.mp hk ▸ htk

end Nested

variable [DecidableEq α]

/-- `M` can be chosen from the groups, one element from each as far as possible. -/
inductive Choice : List (Finset α) → Finset α → Prop
  | nil : Choice [] ∅
  | choose {gs g M r} : Choice gs M → r ∈ g → r ∉ M → Choice (gs ++ [g]) (insert r M)
  | full {gs g M} : Choice gs M → g ⊆ M → Choice (gs ++ [g]) M

/-- Takes the element away from the first group which contains it, deleting the group, and
removes it from all others. -/
def consume (gs : List (Finset α)) (t : α) : List (Finset α) :=
  (gs.eraseP fun g => t ∈ g).map (·.erase t)

variable {gs : List (Finset α)} {g h M N : Finset α} {t r : α}

theorem choice_nil : Choice [] M ↔ M = ∅ := by
  refine ⟨fun h => ?_, fun h => h ▸ .nil⟩
  generalize hgs : ([] : List (Finset α)) = gs at h
  cases h with
  | nil => rfl
  | choose _ _ _ => simp at hgs
  | full _ _ => simp at hgs

theorem choice_concat :
    Choice (gs ++ [g]) N ↔
      ∃ M, Choice gs M ∧ ((∃ r ∈ g, r ∉ M ∧ N = insert r M) ∨ (g ⊆ M ∧ N = M)) := by
  constructor
  · intro h
    generalize hgs : gs ++ [g] = gs' at h
    cases h with
    | nil => simp at hgs
    | choose hM hr hnot =>
      obtain ⟨rfl, hg⟩ := List.append_inj' hgs rfl
      obtain rfl := List.singleton_inj.mp hg
      exact ⟨_, hM, .inl ⟨_, hr, hnot, rfl⟩⟩
    | full hM hsub =>
      obtain ⟨rfl, hg⟩ := List.append_inj' hgs rfl
      obtain rfl := List.singleton_inj.mp hg
      exact ⟨_, hM, .inr ⟨hsub, rfl⟩⟩
  · rintro ⟨M, hM, ⟨r, hr, hnot, rfl⟩ | ⟨hsub, rfl⟩⟩
    · exact .choose hM hr hnot
    · exact .full hM hsub

/-- Some choice is always possible. -/
theorem exists_choice (gs : List (Finset α)) : ∃ M, Choice gs M := by
  induction gs using List.reverseRecOn with
  | nil => exact ⟨∅, .nil⟩
  | append_singleton gs g ih =>
    obtain ⟨M, hM⟩ := ih
    by_cases hsub : g ⊆ M
    · exact ⟨M, .full hM hsub⟩
    · obtain ⟨r, hr, hnot⟩ := Finset.not_subset.mp hsub
      exact ⟨insert r M, .choose hM hr hnot⟩

/-- Only elements of the groups are chosen. -/
theorem Choice.mem_group (h : Choice gs M) (ht : t ∈ M) : ∃ g ∈ gs, t ∈ g := by
  induction h with
  | nil => simp at ht
  | choose _ hr _ ih =>
    rcases Finset.mem_insert.mp ht with rfl | ht
    · exact ⟨_, by simp, hr⟩
    · obtain ⟨g, hg, htg⟩ := ih ht
      exact ⟨g, by simp [hg], htg⟩
  | full _ _ ih =>
    obtain ⟨g, hg, htg⟩ := ih ht
    exact ⟨g, by simp [hg], htg⟩

/-- Groups without elements admit the empty choice only. -/
theorem choice_iff_of_forall_empty (h : ∀ g ∈ gs, g = ∅) : Choice gs M ↔ M = ∅ := by
  have empty : ∀ {N}, Choice gs N → N = ∅ := by
    intro N hN
    refine Finset.eq_empty_of_forall_notMem fun t ht => ?_
    obtain ⟨g, hg, htg⟩ := hN.mem_group ht
    simp [h g hg] at htg
  refine ⟨empty, ?_⟩
  rintro rfl
  obtain ⟨N, hN⟩ := exists_choice gs
  exact empty hN ▸ hN

/-- **Exchange.** From a choice without `t`, where `t` is in some group, one with `t` is
obtained by giving up one chosen element. -/
theorem Choice.exchange (hn : Nested gs) (h : Choice gs M) (hgroup : ∃ k ∈ gs, t ∈ k)
    (ht : t ∉ M) :
    ∃ r N, (∃ k ∈ gs, r ∈ k) ∧ r ∉ N ∧ t ∉ N ∧ M = insert r N ∧ Choice gs (insert t N) := by
  rcases List.eq_nil_or_concat' gs with rfl | ⟨gs, g, rfl⟩
  · simp at hgroup
  · have htg := hn.mem_last hgroup
    obtain ⟨N, hN, ⟨r, hr, hnot, rfl⟩ | ⟨hsub, rfl⟩⟩ := choice_concat.mp h
    · rw [Finset.mem_insert, not_or] at ht
      exact ⟨r, N, ⟨g, by simp, hr⟩, hnot, ht.2, rfl, .choose hN htg ht.2⟩
    · exact absurd (hsub htg) ht

theorem consume_concat_of_mem (h : ∃ k ∈ gs, t ∈ k) :
    consume (gs ++ [g]) t = consume gs t ++ [g.erase t] := by
  obtain ⟨k, hk, htk⟩ := h
  rw [consume, List.eraseP_append_left (a := k) (by simpa using htk) _ hk, List.map_append]
  rfl

theorem consume_concat_of_not_mem (h : ¬ ∃ k ∈ gs, t ∈ k) (ht : t ∈ g) :
    consume (gs ++ [g]) t = gs := by
  have hall : ∀ k ∈ gs, t ∉ k := fun k hk htk => h ⟨k, hk, htk⟩
  rw [consume, List.eraseP_append_right _ (by simpa using hall)]
  simp only [List.eraseP_cons, ht, decide_true, cond_true, List.append_nil]
  exact (List.map_congr_left fun k hk => Finset.erase_eq_of_notMem (hall k hk)).trans
    (List.map_id gs)

/-- The groups which are left are groups of before without the element. -/
theorem exists_of_mem_consume (h : g ∈ consume gs t) : ∃ k ∈ gs, g = k.erase t := by
  obtain ⟨k, hk, rfl⟩ := List.mem_map.mp h
  exact ⟨k, List.mem_of_mem_eraseP hk, rfl⟩

/-- Consuming keeps the groups nested. -/
theorem Nested.consume (hn : Nested gs) (t : α) : Nested (consume gs t) :=
  (hn.sublist List.eraseP_sublist).map _ fun _ _ hsub => Finset.erase_subset_erase t hsub

/-- Consuming an element which is in some group leaves exactly the choices which contained
it, without it. -/
theorem choice_consume (hn : Nested gs) (ht : ∃ k ∈ gs, t ∈ k) :
    Choice (consume gs t) N ↔ ∃ M, Choice gs M ∧ t ∈ M ∧ N = M.erase t := by
  induction gs using List.reverseRecOn generalizing N with
  | nil => simp at ht
  | append_singleton gs g ih =>
    have htg := hn.mem_last ht
    by_cases hgs : ∃ k ∈ gs, t ∈ k
    · rw [consume_concat_of_mem hgs]
      replace ih := fun N => ih (N := N) (nested_concat.mp hn).1 hgs
      constructor
      · intro h
        obtain ⟨N', hN', hlast⟩ := choice_concat.mp h
        obtain ⟨M', hM', htM', rfl⟩ := (ih N').mp hN'
        rcases hlast with ⟨r, hr, hnot, rfl⟩ | ⟨hsub, rfl⟩
        · obtain ⟨hrt, hrg⟩ := Finset.mem_erase.mp hr
          have hrM : r ∉ M' := fun h => hnot (Finset.mem_erase.mpr ⟨hrt, h⟩)
          refine ⟨insert r M', .choose hM' hrg hrM, Finset.mem_insert_of_mem htM', ?_⟩
          exact (Finset.erase_insert_of_ne hrt).symm
        · refine ⟨M', .full hM' fun x hx => ?_, htM', rfl⟩
          by_cases hxt : x = t
          · exact hxt ▸ htM'
          · exact Finset.mem_of_mem_erase (hsub (Finset.mem_erase.mpr ⟨hxt, hx⟩))
      · rintro ⟨M, hM, htM, rfl⟩
        obtain ⟨M', hM', ⟨r, hr, hnot, rfl⟩ | ⟨hsub, rfl⟩⟩ := choice_concat.mp hM
        · by_cases hrt : r = t
          · -- the last group chose `t`: exchange `t` for an element the groups before gave
            obtain rfl : t = r := hrt.symm
            rw [Finset.erase_insert hnot]
            obtain ⟨r, N, hrg, hrN, htN, rfl, hexch⟩ :=
              hM'.exchange (nested_concat.mp hn).1 hgs hnot
            have hN : Choice (consume gs t) N :=
              (ih N).mpr ⟨insert t N, hexch, Finset.mem_insert_self t N,
                (Finset.erase_insert htN).symm⟩
            have hrt : r ≠ t := by
              rintro rfl
              exact hnot (Finset.mem_insert_self r N)
            obtain ⟨k, hk, hrk⟩ := hrg
            exact .choose hN (Finset.mem_erase.mpr ⟨hrt, (nested_concat.mp hn).2 k hk hrk⟩) hrN
          · have htM' : t ∈ M' := (Finset.mem_insert.mp htM).resolve_left (Ne.symm hrt)
            rw [Finset.erase_insert_of_ne hrt]
            exact .choose ((ih _).mpr ⟨M', hM', htM', rfl⟩) (Finset.mem_erase.mpr ⟨hrt, hr⟩)
              fun h => hnot (Finset.mem_of_mem_erase h)
        · exact .full ((ih _).mpr ⟨_, hM', htM, rfl⟩) (Finset.erase_subset_erase t hsub)
    · rw [consume_concat_of_not_mem hgs htg]
      have hfresh : ∀ {M}, Choice gs M → t ∉ M := fun hM htM => hgs (hM.mem_group htM)
      constructor
      · intro h
        exact ⟨insert t N, .choose h htg (hfresh h), Finset.mem_insert_self t N,
          (Finset.erase_insert (hfresh h)).symm⟩
      · rintro ⟨M, hM, htM, rfl⟩
        obtain ⟨M', hM', ⟨r, hr, hnot, rfl⟩ | ⟨hsub, rfl⟩⟩ := choice_concat.mp hM
        · obtain rfl : t = r := (Finset.mem_insert.mp htM).resolve_right (hfresh hM')
          rwa [Finset.erase_insert hnot]
        · exact absurd htM (hfresh hM')

end McMini.Foundation
