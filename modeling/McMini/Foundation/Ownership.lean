import Mathlib.Data.Finmap

/-!
# Owned allocations

A heap maps the addresses of the live allocations to their contents. *Places* hold pointers into
it, some of them null. When every allocation has exactly one place which points to it, and every
pointer is to a live allocation (`OwnedOnce`), nothing is freed twice or lost: allocating into an
empty place, moving a pointer to an empty place and freeing what a place holds keep it so, and
leave the contents of all other places alone.
-/

namespace McMini.Foundation

/-- The live allocations. -/
abbrev Heap (α : Type) := Finmap fun _ : ℕ => α

variable {ι α : Type} {heap heap' : Heap α} {place : ι → Option ℕ} {i j : ι} {a : ℕ} {v : α}

/-- Frees an allocation, unless the pointer is null. Freeing what is not live fails. -/
def Heap.free (heap : Heap α) : Option ℕ → Option (Heap α)
  | none => some heap
  | some a => if a ∈ heap then some (heap.erase a) else none

/-- What the pointer in a place points to. -/
def held (heap : Heap α) (place : ι → Option ℕ) (i : ι) : Option α :=
  (place i).bind heap.lookup

/-- Every pointer is to a live allocation, and every live allocation has one pointer to it. -/
structure OwnedOnce (heap : Heap α) (place : ι → Option ℕ) : Prop where
  live : ∀ i a, place i = some a → a ∈ heap
  owned : ∀ a ∈ heap, ∃ i, place i = some a
  unique : ∀ i j a, place i = some a → place j = some a → i = j

namespace OwnedOnce

theorem held_isSome (h : OwnedOnce heap place) (hi : place i = some a) :
    ∃ v, heap.lookup a = some v ∧ held heap place i = some v := by
  obtain ⟨v, hv⟩ := Finmap.mem_iff.mp (h.live i a hi)
  exact ⟨v, hv, by rw [held, hi, Option.bind_some, hv]⟩

variable [DecidableEq ι]

/-- Allocating into an empty place. -/
theorem alloc (h : OwnedOnce heap place) (ha : a ∉ heap) (hi : place i = none) :
    OwnedOnce (heap.insert a v) (Function.update place i (some a)) ∧
      held (heap.insert a v) (Function.update place i (some a)) =
        Function.update (held heap place) i (some v) := by
  have hold : ∀ k b, place k = some b → k ≠ i ∧ b ≠ a := by
    refine fun k b hk => ⟨?_, ?_⟩
    · rintro rfl
      exact absurd (hi.symm.trans hk) (Option.some_ne_none b).symm
    · rintro rfl
      exact ha (h.live k b hk)
  refine ⟨⟨fun k b hk => ?_, fun b hb => ?_, fun k l b hk hl => ?_⟩, funext fun k => ?_⟩
  · rw [Function.update_apply] at hk
    split_ifs at hk with hki
    · exact Finmap.mem_insert.mpr (.inl (Option.some.inj hk).symm)
    · exact Finmap.mem_insert.mpr (.inr (h.live k b hk))
  · rcases Finmap.mem_insert.mp hb with rfl | hb
    · exact ⟨i, Function.update_self ..⟩
    · obtain ⟨k, hk⟩ := h.owned b hb
      exact ⟨k, (Function.update_of_ne (hold k b hk).1 ..).trans hk⟩
  · rw [Function.update_apply] at hk hl
    split_ifs at hk hl with hki hli hli
    · exact hki.trans hli.symm
    · exact absurd (Option.some.inj hk).symm (hold l b hl).2
    · exact absurd (Option.some.inj hl).symm (hold k b hk).2
    · exact h.unique k l b hk hl
  · by_cases hk : k = i
    · subst hk
      rw [held, Function.update_self, Function.update_self, Option.bind_some,
        Finmap.lookup_insert]
    · rw [held, Function.update_of_ne hk, Function.update_of_ne hk, held]
      cases hb : place k with
      | none => rfl
      | some b =>
        rw [Option.bind_some, Option.bind_some, Finmap.lookup_insert_of_ne _ (hold k b hb).2]

/-- Moving a pointer to an empty place. -/
theorem move (h : OwnedOnce heap place) (hi : place i = some a) (hj : place j = none) :
    OwnedOnce heap (Function.update (Function.update place i none) j (some a)) ∧
      held heap (Function.update (Function.update place i none) j (some a)) =
        Function.update (Function.update (held heap place) i none) j (held heap place i) := by
  have hne : i ≠ j := by
    rintro rfl
    exact absurd (hj.symm.trans hi) (Option.some_ne_none a).symm
  refine ⟨⟨fun k b hk => ?_, fun b hb => ?_, fun k l b hk hl => ?_⟩, funext fun k => ?_⟩
  · rw [Function.update_apply, Function.update_apply] at hk
    split_ifs at hk with hkj hki
    · exact Option.some.inj hk ▸ h.live i a hi
    · exact h.live k b hk
  · obtain ⟨k, hk⟩ := h.owned b hb
    by_cases hki : k = i
    · subst hki
      exact ⟨j, (Function.update_self ..).trans (hi.symm.trans hk)⟩
    · refine ⟨k, ?_⟩
      have hkj : k ≠ j := by
        rintro rfl
        exact absurd (hj.symm.trans hk) (Option.some_ne_none b).symm
      rw [Function.update_of_ne hkj, Function.update_of_ne hki, hk]
  · rw [Function.update_apply, Function.update_apply] at hk hl
    split_ifs at hk hl with hkj hlj hli hki hlj hli
    · exact hkj.trans hlj.symm
    · exact absurd (h.unique l i b hl (hi.trans hk)) hli
    · exact absurd (h.unique k i b hk (hi.trans hl)) hki
    · exact h.unique k l b hk hl
  · by_cases hkj : k = j
    · subst hkj
      rw [held, Function.update_self, Function.update_self, held, hi]
    · rw [held, Function.update_of_ne hkj, Function.update_of_ne hkj]
      by_cases hki : k = i
      · subst hki
        rw [Function.update_self, Function.update_self, Option.bind_none]
      · rw [Function.update_of_ne hki, Function.update_of_ne hki, held]

/-- Freeing what a place holds, if anything. -/
theorem free (h : OwnedOnce heap place) (i : ι) :
    ∃ heap', heap.free (place i) = some heap' ∧ OwnedOnce heap' (Function.update place i none) ∧
      held heap' (Function.update place i none) = Function.update (held heap place) i none := by
  cases hi : place i with
  | none =>
    have hsame : Function.update place i none = place := by rw [← hi, Function.update_eq_self]
    have hheld : held heap place i = none := by rw [held, hi, Option.bind_none]
    refine ⟨heap, rfl, hsame.symm ▸ h, ?_⟩
    rw [hsame, ← hheld, Function.update_eq_self]
  | some a =>
    have hother : ∀ k b, k ≠ i → place k = some b → b ≠ a := by
      rintro k b hk hb rfl
      exact hk (h.unique k i b hb hi)
    refine ⟨heap.erase a, by rw [Heap.free, if_pos (h.live i a hi)],
      ⟨fun k b hk => ?_, fun b hb => ?_, fun k l b hk hl => ?_⟩, funext fun k => ?_⟩
    · rw [Function.update_apply] at hk
      split_ifs at hk with hki
      exact Finmap.mem_erase.mpr ⟨hother k b hki hk, h.live k b hk⟩
    · obtain ⟨hba, hb⟩ := Finmap.mem_erase.mp hb
      obtain ⟨k, hk⟩ := h.owned b hb
      refine ⟨k, (Function.update_of_ne ?_ ..).trans hk⟩
      rintro rfl
      exact hba (Option.some.inj (hk.symm.trans hi))
    · rw [Function.update_apply] at hk hl
      split_ifs at hk hl
      exact h.unique k l b hk hl
    · by_cases hki : k = i
      · subst hki
        rw [held, Function.update_self, Function.update_self, Option.bind_none]
      · rw [held, Function.update_of_ne hki, Function.update_of_ne hki, held]
        cases hb : place k with
        | none => rfl
        | some b =>
          rw [Option.bind_some, Option.bind_some, Finmap.lookup_erase_ne (hother k b hki hb)]

/-- Freeing what a list of places holds. -/
theorem freeAll (h : OwnedOnce heap place) {places : List ι} (hnodup : places.Nodup) :
    ∃ heap', (places.map place).foldlM Heap.free heap = some heap' ∧
      OwnedOnce heap' (fun i => if i ∈ places then none else place i) ∧
      held heap' (fun i => if i ∈ places then none else place i) =
        fun i => if i ∈ places then none else held heap place i := by
  induction places generalizing heap place with
  | nil =>
    refine ⟨heap, rfl, ?_, ?_⟩
    · simpa using h
    · simp
  | cons i places ih =>
    obtain ⟨hi, hnodup⟩ := List.nodup_cons.mp hnodup
    obtain ⟨heap₁, hfree, howned, hheld⟩ := h.free i
    obtain ⟨heap', hrest, howned', hheld'⟩ := ih howned hnodup
    have hmap : places.map (Function.update place i none) = places.map place := by
      refine List.map_congr_left fun k hk => Function.update_of_ne ?_ ..
      rintro rfl
      exact hi hk
    have hplace : (fun k => if k ∈ places then none else Function.update place i none k) =
        fun k => if k ∈ i :: places then none else place k := by
      funext k
      by_cases hk : k = i <;> simp [hk]
    rw [hmap] at hrest
    rw [hplace] at howned' hheld'
    refine ⟨heap', ?_, howned', hheld'.trans (funext fun k => ?_)⟩
    · rw [List.map_cons, List.foldlM_cons, hfree]
      exact hrest
    · rw [hheld]
      by_cases hk : k = i <;> simp [hk]

end OwnedOnce

end McMini.Foundation
