import Mathlib.Data.List.Permutation
import Mathlib.Data.List.Sort
import McMini.Foundation.HappensBefore

/-!
# Reordering a trace

The events of a trace may be executed in another order as long as none is put before an event
which happens before it: the order of the positions is then a *linearization* of happens-before
(`Linearizes`). What holds of a trace and survives the exchange of neighbours which do not depend
on each other holds of all its linearizations (`of_linearizes`).

The argument moves the events to their places one after the other, from the first one on. The
events which one passes on its way to the front come later in the new order, so it does not depend
on them.
-/

namespace McMini.Foundation

variable {α : Type*}

/-- The order of positions lists each of them once, and none before one which happens before it. -/
structure Linearizes (dep : α → α → Prop) (l : List α) (order : List ℕ) : Prop where
  perm : order.Perm (List.range l.length)
  respects : order.Pairwise fun i j => ¬ HappensBefore dep l j i

/-- The events in the order of the positions. -/
def reordered (l : List α) (order : List ℕ) : List α := order.filterMap (l[·]?)

section Exchange

variable {dep : α → α → Prop} {R : List α → Prop} {l l' pre post : List α} {a : α}

/-- An event passes those on which it does not depend. -/
theorem of_move_front
    (exchange : ∀ pre a b post, ¬ dep a b → R (pre ++ a :: b :: post) → R (pre ++ b :: a :: post))
    (hpre : ∀ b ∈ pre, ¬ dep b a) (h : R (pre ++ a :: post)) : R (a :: (pre ++ post)) := by
  induction pre using List.reverseRecOn generalizing post with
  | nil => exact h
  | append_singleton pre b ih =>
    have hb : ¬ dep b a := hpre b (by simp)
    rw [List.append_assoc] at h
    have hpassed := ih (fun c hc => hpre c (List.mem_append_left _ hc)) (exchange pre b a post hb h)
    rw [List.append_assoc]
    exact hpassed

/-- Events which are listed once each may be permuted, if the dependent ones keep their order. -/
theorem of_perm
    (exchange : ∀ pre a b post, ¬ dep a b → R (pre ++ a :: b :: post) → R (pre ++ b :: a :: post))
    (hperm : l'.Perm l) (hdep : l'.Pairwise fun a b => [b, a].Sublist l → ¬ dep b a) (h : R l) :
    R l' := by
  induction l' generalizing l R with
  | nil => exact hperm.nil_eq ▸ h
  | cons a l' ih =>
    obtain ⟨pre, post, rfl⟩ := List.append_of_mem (hperm.subset (List.mem_cons_self ..))
    have hperm' : l'.Perm (pre ++ post) :=
      (hperm.trans List.perm_middle).cons_inv
    obtain ⟨hfirst, hrest⟩ := List.pairwise_cons.mp hdep
    have hsub : (pre ++ post).Sublist (pre ++ a :: post) :=
      (List.Sublist.refl pre).append (List.sublist_cons_self a post)
    have hfront : R (a :: (pre ++ post)) := by
      refine of_move_front exchange (fun b hb => ?_) h
      refine hfirst b (hperm'.mem_iff.mpr (List.mem_append_left _ hb)) ?_
      exact (List.singleton_sublist.mpr hb).append (List.singleton_sublist.mpr (by simp))
    refine ih (R := fun l => R (a :: l)) (fun pre b c post hbc => ?_) hperm' ?_ hfront
    · exact exchange (a :: pre) b c post hbc
    · exact hrest.imp fun hbc hmem => hbc (hmem.trans hsub)

end Exchange

variable {dep : α → α → Prop} {R : List α → Prop} {l : List α} {order : List ℕ}

theorem reordered_append (pre post : List ℕ) :
    reordered l (pre ++ post) = reordered l pre ++ reordered l post := List.filterMap_append

theorem reordered_cons (i : ℕ) (post : List ℕ) :
    reordered l (i :: post) = l[i]?.toList ++ reordered l post := by
  cases hi : l[i]? with
  | none => exact List.filterMap_cons_none hi
  | some a => exact List.filterMap_cons_some hi

theorem reordered_range (l : List α) : reordered l (List.range l.length) = l := by
  induction l using List.reverseRecOn with
  | nil => rfl
  | append_singleton l a ih =>
    have hsame : reordered (l ++ [a]) (List.range l.length) =
        reordered l (List.range l.length) := by
      refine List.filterMap_congr fun i hi => ?_
      rw [List.getElem?_append_left (List.mem_range.mp hi)]
    rw [List.length_append, List.length_singleton, List.range_succ, reordered_append,
      reordered_cons, hsame, ih, List.getElem?_concat_length]
    rfl

/-- **What survives the exchange of independent neighbours holds of all linearizations.** -/
theorem of_linearizes
    (exchange : ∀ pre a b post, ¬ dep a b → R (pre ++ a :: b :: post) → R (pre ++ b :: a :: post))
    (hlinear : Linearizes dep l order) (h : R l) : R (reordered l order) := by
  have hexchange : ∀ pre i j post,
      ¬ (∃ a b, l[i]? = some a ∧ l[j]? = some b ∧ dep a b) →
      R (reordered l (pre ++ i :: j :: post)) → R (reordered l (pre ++ j :: i :: post)) := by
    intro pre i j post hdep hR
    rw [reordered_append, reordered_cons, reordered_cons] at hR ⊢
    cases hi : l[i]? with
    | none => simpa [hi] using hR
    | some a =>
      cases hj : l[j]? with
      | none => simpa [hi, hj] using hR
      | some b =>
        rw [hi, hj] at hR
        exact exchange _ a b _ (fun hab => hdep ⟨a, b, hi, hj, hab⟩) hR
  refine of_perm (R := fun order => R (reordered l order)) hexchange hlinear.perm ?_
    ((reordered_range l).symm ▸ h)
  refine hlinear.respects.imp fun hij hmem hdep => hij (.single ⟨?_, hdep⟩)
  have hsorted := (List.pairwise_lt_range (n := l.length)).sublist hmem
  simpa using hsorted

end McMini.Foundation
