import Mathlib.Data.Finmap

/-!
# Finite one-to-one mappings

`InjectiveFunction α β` is a finite partial map which can be read in both directions. It
is kept as two maps which are mirrors of one another, and the mirror law is a field: a
value of this type is a one-to-one mapping. `insert` therefore refuses a pair whose second
component is already taken.

`keys_insert` and `keys_eq_range_insert` are facts about the keys of a `Finmap`; the second
is what numbering things consecutively needs: adding a key to the first `n` numbers gives
an initial segment again only when the key is `n`.
-/

namespace McMini.Foundation

universe u v

section Keys

variable {α : Type u} {β : Type v} [DecidableEq α]

theorem keys_insert (f : Finmap fun _ : α => β) (a : α) (b : β) :
    (f.insert a b).keys = insert a f.keys := by
  ext x
  simp [Finmap.mem_keys, Finmap.mem_insert]

theorem lookup_insert (f : Finmap fun _ : α => β) (a x : α) (b : β) :
    (f.insert a b).lookup x = if a = x then some b else f.lookup x := by
  by_cases h : a = x
  · subst h
    simp
  · simp [h, Finmap.lookup_insert_of_ne f (Ne.symm h)]

/-- A finite set of numbers which is an initial segment stays one when `n` is added exactly
when `n` is its first missing number, or is there already. -/
theorem eq_range_insert_iff {s : Finset ℕ} {n : ℕ} (h : s = Finset.range s.card) :
    insert n s = Finset.range (insert n s).card ↔ n ≤ s.card := by
  by_cases hn : n ∈ s
  · rw [Finset.insert_eq_of_mem hn]
    refine ⟨fun _ => ?_, fun _ => h⟩
    rw [h, Finset.mem_range] at hn
    exact hn.le
  · rw [Finset.card_insert_of_notMem hn]
    constructor
    · intro heq
      have hmem : n ∈ Finset.range (s.card + 1) := heq ▸ Finset.mem_insert_self n s
      exact Nat.lt_succ_iff.mp (Finset.mem_range.mp hmem)
    · intro hle
      have hge : s.card ≤ n := by
        rw [h, Finset.mem_range] at hn
        exact not_lt.mp hn
      obtain rfl : n = s.card := le_antisymm hle hge
      rw [Finset.range_add_one, ← h]

end Keys

/-- A finite one-to-one mapping, readable in both directions. -/
structure InjectiveFunction (α β : Type u) [DecidableEq α] [DecidableEq β] where
  forward : Finmap fun _ : α => β
  backward : Finmap fun _ : β => α
  mirrored : ∀ a b, forward.lookup a = some b ↔ backward.lookup b = some a

namespace InjectiveFunction

variable {α β : Type u} [DecidableEq α] [DecidableEq β] {f g : InjectiveFunction α β}
  {a a' : α} {b : β}

/-- The empty mapping. -/
def empty : InjectiveFunction α β := ⟨∅, ∅, fun a b => by simp⟩

/-- What the domain value is mapped to. -/
def lookup (f : InjectiveFunction α β) (a : α) : Option β := f.forward.lookup a

/-- What is mapped to the range value. -/
def rangeLookup (f : InjectiveFunction α β) (b : β) : Option α := f.backward.lookup b

def size (f : InjectiveFunction α β) : ℕ := f.forward.keys.card

/-- Adds a pair. A pair whose first component is mapped already is ignored, and one whose
second component is taken is refused. -/
def insert (f : InjectiveFunction α β) (a : α) (b : β) : Option (InjectiveFunction α β) :=
  if ha : a ∈ f.forward then some f
  else if hb : b ∈ f.backward then none
  else some
    { forward := f.forward.insert a b
      backward := f.backward.insert b a
      mirrored := by
        intro x y
        have hx : f.forward.lookup a ≠ some y := by
          rw [Finmap.lookup_eq_none.mpr ha]
          exact Option.some_ne_none y |>.symm
        have hy : f.backward.lookup b ≠ some x := by
          rw [Finmap.lookup_eq_none.mpr hb]
          exact Option.some_ne_none x |>.symm
        rw [lookup_insert, lookup_insert]
        by_cases hax : a = x <;> by_cases hby : b = y
        · subst hax hby
          simp
        · subst hax
          simp only [if_true, hby, if_false, Option.some.injEq, false_iff]
          rw [← f.mirrored]
          exact hx
        · subst hby
          simp only [hax, if_false, if_true, Option.some.injEq, iff_false]
          rw [f.mirrored]
          exact hy
        · simp only [hax, hby, if_false]
          exact f.mirrored x y }

theorem lookup_eq_some_iff : f.lookup a = some b ↔ f.rangeLookup b = some a := f.mirrored a b

/-- The mapping is one-to-one. -/
theorem lookup_injective (ha : f.lookup a = some b) (ha' : f.lookup a' = some b) : a = a' := by
  rw [lookup_eq_some_iff] at ha ha'
  exact Option.some.inj (ha.symm.trans ha')

theorem mem_forward_keys : a ∈ f.forward.keys ↔ ∃ b, f.lookup a = some b := by
  rw [Finmap.mem_keys, Finmap.mem_iff]
  rfl

theorem mem_backward_keys : b ∈ f.backward.keys ↔ ∃ a, f.lookup a = some b := by
  rw [Finmap.mem_keys, Finmap.mem_iff]
  exact exists_congr fun a => (f.mirrored a b).symm

/-- There are as many arguments as values. -/
theorem card_backward_keys : f.backward.keys.card = f.size := by
  refine Finset.card_bij (fun b hb => (mem_backward_keys.mp hb).choose) ?_ ?_ ?_
  · intro b hb
    exact mem_forward_keys.mpr ⟨b, (mem_backward_keys.mp hb).choose_spec⟩
  · intro b hb b' hb' heq
    have hlookup := (mem_backward_keys.mp hb).choose_spec
    rw [heq] at hlookup
    exact Option.some.inj (hlookup.symm.trans (mem_backward_keys.mp hb').choose_spec)
  · intro a ha
    obtain ⟨b, hab⟩ := mem_forward_keys.mp ha
    have hb : b ∈ f.backward.keys := mem_backward_keys.mpr ⟨a, hab⟩
    exact ⟨b, hb, lookup_injective (mem_backward_keys.mp hb).choose_spec hab⟩

@[simp]
theorem lookup_empty : (empty : InjectiveFunction α β).lookup a = none := by
  simp [lookup, empty]

@[simp]
theorem size_empty : (empty : InjectiveFunction α β).size = 0 := by
  simp [size, empty]

@[simp]
theorem keys_empty : (empty : InjectiveFunction α β).forward.keys = ∅ := by
  simp [empty]

/-- A pair of new values is added. -/
theorem exists_insert (ha : f.lookup a = none) (hb : ∀ x, f.lookup x ≠ some b) :
    ∃ g, f.insert a b = some g ∧ g.forward = f.forward.insert a b := by
  have ha' : a ∉ f.forward := Finmap.lookup_eq_none.mp ha
  have hb' : b ∉ f.backward := by
    intro hmem
    obtain ⟨x, hx⟩ := Finmap.mem_iff.mp hmem
    exact hb x (lookup_eq_some_iff.mpr hx)
  exact ⟨_, (dif_neg ha').trans (dif_neg hb'), rfl⟩

/-- What an insertion of a new argument which is not refused makes of the mapping. -/
theorem forward_of_insert (ha : f.lookup a = none) (h : f.insert a b = some g) :
    g.forward = f.forward.insert a b ∧ g.backward = f.backward.insert b a := by
  have ha' : a ∉ f.forward := Finmap.lookup_eq_none.mp ha
  rw [insert, dif_neg ha'] at h
  split_ifs at h
  rw [← Option.some.inj h]
  exact ⟨rfl, rfl⟩

theorem lookup_of_insert (ha : f.lookup a = none) (h : f.insert a b = some g) (x : α) :
    g.lookup x = if a = x then some b else f.lookup x := by
  rw [lookup, (forward_of_insert ha h).1, lookup_insert]
  rfl

/-- A new pair adds one to the size. -/
theorem size_of_insert (ha : f.lookup a = none) (h : f.insert a b = some g) :
    g.size = f.size + 1 := by
  have hnew : a ∉ f.forward.keys := fun hmem =>
    Finmap.lookup_eq_none.mp ha (Finmap.mem_keys.mp hmem)
  rw [size, (forward_of_insert ha h).1, keys_insert, Finset.card_insert_of_notMem hnew]
  rfl

/-- Where the arguments are numbered consecutively, mapping the next number adds one. -/
theorem size_of_forward_insert {β : Type} [DecidableEq β] {f g : InjectiveFunction ℕ β} {b : β}
    (hkeys : f.forward.keys = Finset.range f.size)
    (hforward : g.forward = f.forward.insert f.size b) : g.size = f.size + 1 := by
  have hnew : f.size ∉ f.forward.keys := by
    rw [hkeys]
    exact Finset.notMem_range_self
  rw [size, hforward, keys_insert, Finset.card_insert_of_notMem hnew]
  rfl

end InjectiveFunction

end McMini.Foundation
