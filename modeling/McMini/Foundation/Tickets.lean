import Mathlib.Data.List.Nodup

/-!
# Tickets

The entries of a list draw numbers from a counter which is incremented on each draw: the first one
gets 0, the next one 1, and so on, in whatever order they come. An entry keeps its number. So the
numbers drawn are a permutation of those below the counter.
-/

namespace McMini.Foundation

variable {α β : Type*} {ticket : α → Option ℕ} {l : List α} {n k j i : ℕ} {x y : α}

/-- The entries of the list have drawn the numbers below `n`. -/
def Drawn (ticket : α → Option ℕ) (l : List α) (n : ℕ) : Prop :=
  (l.filterMap ticket).Perm (List.range n)

theorem filterMap_set_of_eq {f : α → Option β} (hx : l[k]? = some x) (h : f y = f x) :
    (l.set k y).filterMap f = l.filterMap f := by
  induction l generalizing k with
  | nil => rfl
  | cons z l ih =>
    cases k with
    | zero =>
      obtain rfl := Option.some.inj hx
      rw [List.set_cons_zero, List.filterMap_cons, List.filterMap_cons, h]
    | succ k => rw [List.set_cons_succ, List.filterMap_cons, List.filterMap_cons, ih hx]

theorem map_set_of_eq {f : α → β} (hx : l[k]? = some x) (h : f y = f x) :
    (l.set k y).map f = l.map f := by
  have heq := filterMap_set_of_eq (f := some ∘ f) hx (congrArg some h)
  rwa [List.filterMap_eq_map] at heq

theorem filterMap_set_perm {f : α → Option β} {b : β} (hx : l[k]? = some x) (hnone : f x = none)
    (hy : f y = some b) : ((l.set k y).filterMap f).Perm (b :: l.filterMap f) := by
  induction l generalizing k with
  | nil => cases hx
  | cons z l ih =>
    cases k with
    | zero =>
      obtain rfl := Option.some.inj hx
      rw [List.set_cons_zero, List.filterMap_cons, List.filterMap_cons, hnone, hy]
    | succ k =>
      rw [List.set_cons_succ, List.filterMap_cons, List.filterMap_cons]
      cases hz : f z with
      | none => exact ih hx
      | some c => exact ((ih hx).cons c).trans (.swap b c _)

theorem perm_filterMap_set {f : α → Option β} {b : β} (hx : l[k]? = some x) (hb : f x = some b)
    (hy : f y = none) : (l.filterMap f).Perm (b :: (l.set k y).filterMap f) := by
  have hlt : k < l.length := (List.getElem?_eq_some_iff.mp hx).1
  have hperm := filterMap_set_perm (List.getElem?_set_self hlt) hy hb
  rwa [List.set_set, show l.set k x = l from ?_] at hperm
  obtain ⟨-, rfl⟩ := List.getElem?_eq_some_iff.mp hx
  exact List.set_getElem_self hlt

namespace Drawn

theorem nil (h : ∀ x ∈ l, ticket x = none) : Drawn ticket l 0 := by
  have hempty : l.filterMap ticket = [] := List.filterMap_eq_nil_iff.mpr h
  rw [Drawn, hempty, List.range_zero]

theorem keep (h : Drawn ticket l n) (hx : l[k]? = some x) (hy : ticket y = ticket x) :
    Drawn ticket (l.set k y) n := by
  rw [Drawn, filterMap_set_of_eq hx hy]
  exact h

/-- An entry draws the next number. -/
theorem draw (h : Drawn ticket l n) (hx : l[k]? = some x) (hnone : ticket x = none)
    (hy : ticket y = some n) : Drawn ticket (l.set k y) (n + 1) := by
  have hperm : ((l.set k y).filterMap ticket).Perm (n :: List.range n) :=
    (filterMap_set_perm hx hnone hy).trans (h.cons n)
  rw [Drawn, List.range_succ]
  exact hperm.trans (List.perm_append_singleton n _).symm

theorem lt (h : Drawn ticket l n) (hx : x ∈ l) (hi : ticket x = some i) : i < n := by
  have hmem : i ∈ l.filterMap ticket := List.mem_filterMap.mpr ⟨x, hx, hi⟩
  exact List.mem_range.mp (h.mem_iff.mp hmem)

theorem exists_of_lt (h : Drawn ticket l n) (hi : i < n) : ∃ x ∈ l, ticket x = some i :=
  List.mem_filterMap.mp (h.mem_iff.mpr (List.mem_range.mpr hi))

/-- No number is drawn twice. -/
theorem injective (h : Drawn ticket l n) (hj : l[j]? = some x) (hk : l[k]? = some y)
    (hx : ticket x = some i) (hy : ticket y = some i) : j = k := by
  have hnodup : (l.filterMap ticket).Nodup := h.nodup_iff.mpr List.nodup_range
  have hpairs := List.pairwise_iff_getElem.mp (List.pairwise_filterMap.mp hnodup)
  obtain ⟨hjlt, rfl⟩ := List.getElem?_eq_some_iff.mp hj
  obtain ⟨hklt, rfl⟩ := List.getElem?_eq_some_iff.mp hk
  rcases Nat.lt_trichotomy j k with hlt | heq | hlt
  · exact absurd rfl (hpairs j k hjlt hklt hlt i hx i hy)
  · exact heq
  · exact absurd rfl (hpairs k j hklt hjlt hlt i hy i hx)

theorem countP_eq (h : Drawn ticket l n) : l.countP (fun x => (ticket x).isSome) = n := by
  rw [← List.length_filterMap_eq_countP, h.length_eq, List.length_range]

/-- An entry is added which has not drawn. -/
theorem concat (h : Drawn ticket l n) (hx : ticket x = none) : Drawn ticket (l ++ [x]) n := by
  have heq : (l ++ [x]).filterMap ticket = l.filterMap ticket := by
    rw [List.filterMap_append, List.filterMap_cons, hx, List.filterMap_nil, List.append_nil]
  rw [Drawn, heq]
  exact h

/-- A table which has for each number what its entry has got is a permutation of what the entries
have got. -/
theorem filterMap_perm (h : Drawn ticket l n) {f : α → Option β} {table : ℕ → β}
    (hall : ∀ x ∈ l, f x = (ticket x).map table) :
    ((List.range n).map table).Perm (l.filterMap f) := by
  have hmap : (l.filterMap ticket).map table = l.filterMap f := by
    rw [List.map_filterMap]
    exact List.filterMap_congr fun x hx => (hall x hx).symm
  exact hmap ▸ (h.map table).symm

end Drawn

end McMini.Foundation
