import Mathlib.Data.List.Basic

/-!
# Lists and computations which may fail

`List.filterM`, `List.anyM` and `List.mapM` in the exception monad ask every element until
one of them fails. Here is what they answer when none does.

`ThrowsOnly P x` says that `x` returns, or throws an exception which satisfies `P`. It passes
from the parts of a computation to the whole.
-/

namespace McMini.Foundation

variable {ε α β : Type} {f : α → Except ε Bool} {l r : List α}

private theorem filterAuxM_eq_ok {acc : List α} (h : l.filterAuxM f acc = .ok r) :
    (∀ a ∈ l, ∃ b, f a = .ok b) ∧ ∀ a, a ∈ r ↔ a ∈ acc ∨ a ∈ l ∧ f a = .ok true := by
  induction l generalizing acc with
  | nil =>
    obtain rfl := Except.ok.inj h
    simp
  | cons x l ih =>
    cases hx : f x with
    | error e => simp [List.filterAuxM, hx, bind, Except.bind] at h
    | ok b =>
      have htail : l.filterAuxM f (cond b (x :: acc) acc) = .ok r := by
        simpa [List.filterAuxM, hx, bind, Except.bind] using h
      obtain ⟨hok, hmem⟩ := ih htail
      refine ⟨?_, fun a => ?_⟩
      · rintro a (_ | ⟨_, ha⟩)
        · exact ⟨b, hx⟩
        · exact hok a ha
      · rw [hmem, List.mem_cons, or_and_right]
        by_cases ha : a = x
        · subst ha
          cases b <;> simp [hx]
        · cases b <;> simp [ha]

/-- A filter which succeeds has an answer from every element, and keeps those which pass. -/
theorem filterM_eq_ok (h : l.filterM f = .ok r) :
    (∀ a ∈ l, ∃ b, f a = .ok b) ∧ ∀ a, a ∈ r ↔ a ∈ l ∧ f a = .ok true := by
  unfold List.filterM at h
  cases haux : l.filterAuxM f [] with
  | error e => simp [haux, bind, Except.bind] at h
  | ok acc =>
    obtain ⟨hok, hmem⟩ := filterAuxM_eq_ok haux
    obtain rfl : acc.reverse = r := by simpa [haux, bind, Except.bind, pure, Except.pure] using h
    exact ⟨hok, fun a => by rw [List.mem_reverse, hmem]; simp⟩

theorem anyM_eq_ok_false : l.anyM f = .ok false ↔ ∀ a ∈ l, f a = .ok false := by
  induction l with
  | nil => simp [pure, Except.pure]
  | cons x l ih =>
    rw [List.anyM_cons, List.forall_mem_cons, ← ih]
    rcases hx : f x with _ | _ | _ <;> simp [bind, Except.bind, pure, Except.pure]

/-- Only the answers of the elements count. -/
theorem anyM_congr {g : α → Except ε Bool} (h : ∀ a ∈ l, f a = g a) : l.anyM f = l.anyM g := by
  induction l with
  | nil => rfl
  | cons x l ih =>
    rw [List.anyM_cons, List.anyM_cons, h x List.mem_cons_self,
      ih fun a ha => h a (List.mem_cons_of_mem _ ha)]

/-- An element which does not pass makes no difference at the end. -/
theorem anyM_concat {a : α} (h : f a = .ok false) : (l ++ [a]).anyM f = l.anyM f := by
  induction l with
  | nil =>
    rw [List.nil_append, List.anyM_cons, h]
    rfl
  | cons x l ih => rw [List.cons_append, List.anyM_cons, List.anyM_cons, ih]

/-- When no element fails, some element passes or none does. -/
theorem exists_anyM_eq_ok {P : α → Prop} (h : ∀ a ∈ l, ∃ b, f a = .ok b ∧ (b = true ↔ P a)) :
    ∃ b, l.anyM f = .ok b ∧ (b = true ↔ ∃ a ∈ l, P a) := by
  induction l with
  | nil => exact ⟨false, rfl, by simp⟩
  | cons x l ih =>
    obtain ⟨b, hb, hbP⟩ := h x List.mem_cons_self
    obtain ⟨c, hc, hcP⟩ := ih fun a ha => h a (List.mem_cons_of_mem _ ha)
    rw [List.anyM_cons, hb, List.exists_mem_cons_iff, ← hbP, ← hcP]
    cases b with
    | true => exact ⟨true, rfl, by simp⟩
    | false => exact ⟨c, hc, by simp⟩

/-- When no element fails, the answers are those of the elements. -/
theorem exists_mapM_eq_ok {g : α → Except ε β} (h : ∀ a ∈ l, ∃ b, g a = .ok b) :
    ∃ bs, l.mapM g = .ok bs ∧ ∀ b, b ∈ bs ↔ ∃ a ∈ l, g a = .ok b := by
  induction l with
  | nil => exact ⟨[], rfl, by simp⟩
  | cons x l ih =>
    obtain ⟨b, hb⟩ := h x List.mem_cons_self
    obtain ⟨bs, hbs, hmem⟩ := ih fun a ha => h a (List.mem_cons_of_mem _ ha)
    refine ⟨b :: bs, ?_, fun b' => ?_⟩
    · simp [List.mapM_cons, hb, hbs, bind, Except.bind, pure, Except.pure]
    · rw [List.mem_cons, hmem, List.exists_mem_cons_iff, hb, Except.ok.injEq, eq_comm]

/-! ### Which exceptions are thrown -/

/-- Every exception the computation can end with satisfies the property. -/
def ThrowsOnly (P : ε → Prop) (x : Except ε α) : Prop := ∀ e, x = .error e → P e

section ThrowsOnly

variable {P : ε → Prop} {x y : Except ε α} {e : ε}

theorem throwsOnly_ok (a : α) : ThrowsOnly P (.ok a : Except ε α) := fun _ h => nomatch h

theorem throwsOnly_error (h : P e) : ThrowsOnly P (.error e : Except ε α) :=
  fun _ heq => Except.error.inj heq ▸ h

theorem ThrowsOnly.bind {g : α → Except ε β} (hx : ThrowsOnly P x)
    (hg : ∀ a, ThrowsOnly P (g a)) : ThrowsOnly P (x >>= g) := by
  cases x with
  | error e => exact throwsOnly_error (hx e rfl)
  | ok a => exact hg a

theorem throwsOnly_ite {c : Prop} [Decidable c] (hx : ThrowsOnly P x) (hy : ThrowsOnly P y) :
    ThrowsOnly P (if c then x else y) := by
  split_ifs
  · exact hx
  · exact hy

theorem throwsOnly_foldlM {g : β → α → Except ε β} (h : ∀ b a, ThrowsOnly P (g b a)) (b : β) :
    ThrowsOnly P (l.foldlM g b) := by
  induction l generalizing b with
  | nil => exact throwsOnly_ok b
  | cons a l ih => exact (h b a).bind ih

theorem throwsOnly_anyM (h : ∀ a, ThrowsOnly P (f a)) : ThrowsOnly P (l.anyM f) := by
  induction l with
  | nil => exact throwsOnly_ok false
  | cons a l ih =>
    rw [List.anyM_cons]
    refine (h a).bind fun b => ?_
    cases b with
    | true => exact throwsOnly_ok true
    | false => exact ih

theorem throwsOnly_filterM (h : ∀ a, ThrowsOnly P (f a)) : ThrowsOnly P (l.filterM f) := by
  have haux : ∀ acc, ThrowsOnly P (l.filterAuxM f acc) := by
    induction l with
    | nil => exact fun acc => throwsOnly_ok acc
    | cons a l ih => exact fun acc => (h a).bind fun b => ih _
  exact (haux []).bind fun r => throwsOnly_ok r.reverse

end ThrowsOnly

end McMini.Foundation
