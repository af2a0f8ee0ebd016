import Mathlib.Data.List.Basic
import Mathlib.Data.Set.Basic
import Mathlib.Order.Basic

/-!
# Walks in a tree of words

A walk in a tree holds one word, to which it adds letters and which it cuts off, and for each
position a set of the letters which it has tried there. A word which it was at before *branches
off* from the current one when the two part at a position where the letter of the former has
been tried. A walk which does not try a letter again never returns to such a word
(`LeftBehind.extend`, `LeftBehind.shorten`), and the words at which it has turned back are
pairwise on different branches (`Enumerates`).
-/

namespace McMini.Foundation

variable {α : Type*} {word left right : List α} {tried tried' : ℕ → Set α} {a : α} {n : ℕ}
  {completed : List (List α)}

/-- Neither of the words continues the other. -/
def Diverge (left right : List α) : Prop := ¬ left <+: right ∧ ¬ right <+: left

theorem Diverge.ne (h : Diverge left right) : left ≠ right := by
  rintro rfl
  exact h.1 List.prefix_rfl

/-- The words part at the position, where `left` goes on with a letter which has been tried. -/
structure PartsAt (word : List α) (tried : ℕ → Set α) (left : List α) (n : ℕ) (a : α) : Prop where
  take : left.take n = word.take n
  letter : left[n]? = some a
  tried : a ∈ tried n
  other : word[n]? ≠ some a

/-- The walk has been on the branch of the word, which it has left. -/
def LeftBehind (word : List α) (tried : ℕ → Set α) (left : List α) : Prop :=
  ∃ n a, PartsAt word tried left n a

/-- Words part within the current one or at its end. -/
theorem PartsAt.le_length (h : PartsAt word tried left n a) : n ≤ word.length := by
  have hlt : n < left.length := (List.getElem?_eq_some_iff.mp h.letter).1
  have hlength := congrArg List.length h.take
  rw [List.length_take, List.length_take] at hlength
  omega

theorem PartsAt.lt_length (h : PartsAt word tried left n a) : n < left.length :=
  (List.getElem?_eq_some_iff.mp h.letter).1

/-- A walk which tries something new does not return to a branch which it has left. -/
theorem LeftBehind.extend (h : LeftBehind word tried left) (ha : a ∉ tried word.length)
    (hsub : ∀ n ≤ word.length, tried n ⊆ tried' n) : LeftBehind (word ++ [a]) tried' left := by
  obtain ⟨n, b, hparts⟩ := h
  have hn := hparts.le_length
  refine ⟨n, b, ?_, hparts.letter, hsub n hn hparts.tried, ?_⟩
  · rw [hparts.take, List.take_append_of_le_length hn]
  · rcases Nat.lt_or_eq_of_le hn with hlt | rfl
    · rw [List.getElem?_append_left hlt]
      exact hparts.other
    · rw [List.getElem?_concat_length]
      intro heq
      obtain rfl := Option.some.inj heq
      exact ha hparts.tried

/-- A walk which turns back stays off the branches which it has left, if the letter which it
takes back has been tried. -/
theorem LeftBehind.shorten (h : LeftBehind word tried left)
    (htried : ∀ a, word[n]? = some a → a ∈ tried n) (hsub : ∀ i ≤ n, tried i ⊆ tried' i) :
    LeftBehind (word.take n) tried' left := by
  obtain ⟨i, b, hparts⟩ := h
  rcases Nat.lt_or_ge n i with hlt | hle
  · -- the words have the letter at the position in common
    have hget : left[n]? = word[n]? := by
      rw [← List.getElem?_take_of_lt hlt, hparts.take, List.getElem?_take_of_lt hlt]
    have hlength := hparts.lt_length
    refine ⟨n, left[n], ?_, List.getElem?_eq_getElem (hlt.trans hlength), ?_, ?_⟩
    · have htake := congrArg (List.take n) hparts.take
      rw [List.take_take, List.take_take, Nat.min_eq_left hlt.le] at htake
      rw [htake, List.take_take, Nat.min_self]
    · refine hsub n (Nat.le_refl n) (htried _ ?_)
      rw [← hget, List.getElem?_eq_getElem (hlt.trans hlength)]
    · rw [List.getElem?_eq_none (List.length_take_le n word)]
      exact (Option.some_ne_none _).symm
  · refine ⟨i, b, ?_, hparts.letter, hsub i hle hparts.tried, ?_⟩
    · rw [hparts.take, List.take_take, Nat.min_eq_left hle]
    · rcases Nat.lt_or_eq_of_le hle with hlt | rfl
      · rw [List.getElem?_take_of_lt hlt]
        exact hparts.other
      · rw [List.getElem?_eq_none (List.length_take_le i word)]
        exact (Option.some_ne_none _).symm

/-- A walk which turns back leaves the word where it was. -/
theorem leftBehind_take (hn : n < word.length)
    (htried : ∀ a, word[n]? = some a → a ∈ tried n) : LeftBehind (word.take n) tried word := by
  have hget : word[n]? = some word[n] := List.getElem?_eq_getElem hn
  refine ⟨n, word[n], ?_, hget, htried _ hget, ?_⟩
  · rw [List.take_take, Nat.min_self]
  · rw [List.getElem?_eq_none (List.length_take_le n word)]
    exact (Option.some_ne_none _).symm

/-- A word from which nothing has been tried is on another branch than those left behind. -/
theorem LeftBehind.diverge (h : LeftBehind word tried left)
    (hnone : ∀ a, a ∉ tried word.length) : Diverge left word := by
  obtain ⟨n, a, hparts⟩ := h
  have hlt : n < word.length := by
    refine Nat.lt_of_le_of_ne hparts.le_length ?_
    rintro rfl
    exact hnone a hparts.tried
  constructor
  · intro hpre
    refine hparts.other ?_
    obtain ⟨rest, rfl⟩ := hpre
    rw [List.getElem?_append_left hparts.lt_length, hparts.letter]
  · intro hpre
    refine hparts.other ?_
    obtain ⟨rest, rfl⟩ := hpre
    rw [← List.getElem?_append_left hlt, hparts.letter]

/-- The completed words are on different branches, all of which the walk has left. -/
structure Enumerates (word : List α) (tried : ℕ → Set α) (completed : List (List α)) : Prop where
  diverge : completed.Pairwise Diverge
  left : ∀ left ∈ completed, LeftBehind word tried left

theorem enumerates_nil (word : List α) (tried : ℕ → Set α) : Enumerates word tried [] :=
  ⟨List.Pairwise.nil, fun _ h => absurd h List.not_mem_nil⟩

/-- Trying a letter for the first time. -/
theorem Enumerates.extend (h : Enumerates word tried completed) (ha : a ∉ tried word.length)
    (hsub : ∀ n ≤ word.length, tried n ⊆ tried' n) :
    Enumerates (word ++ [a]) tried' completed :=
  ⟨h.diverge, fun left hleft => (h.left left hleft).extend ha hsub⟩

/-- The word at which the walk turns back is a new one. -/
theorem Enumerates.pairwise_concat (h : Enumerates word tried completed)
    (hnone : ∀ a, a ∉ tried word.length) : (completed ++ [word]).Pairwise Diverge := by
  refine List.pairwise_append.mpr ⟨h.diverge, List.pairwise_singleton _ _, ?_⟩
  intro left hleft w hw
  rw [List.mem_singleton.mp hw]
  exact (h.left left hleft).diverge hnone

/-- Turning back at a word from which nothing has been tried. -/
theorem Enumerates.complete (h : Enumerates word tried completed)
    (hnone : ∀ a, a ∉ tried word.length) (hn : n < word.length)
    (htried : ∀ a, word[n]? = some a → a ∈ tried n) (hsub : ∀ i ≤ n, tried i ⊆ tried' i) :
    Enumerates (word.take n) tried' (completed ++ [word]) := by
  refine ⟨h.pairwise_concat hnone, fun left hleft => ?_⟩
  rcases List.mem_append.mp hleft with hleft | hleft
  · exact (h.left left hleft).shorten htried hsub
  · obtain rfl := List.mem_singleton.mp hleft
    obtain ⟨i, b, hparts⟩ := leftBehind_take hn htried
    have hle := hparts.le_length
    rw [List.length_take] at hle
    exact ⟨i, b, hparts.take, hparts.letter, hsub i (by omega) hparts.tried, hparts.other⟩

end McMini.Foundation
