import McMini.Foundation.InjectiveFunction
import Mathlib.Data.Set.Card

/-!
# Insertions into an injective function, the rejected ones included

`HashMaps` is what an `injective_function` holds: two hash maps, of which nothing but the
calls makes mirrors. `insert` puts the pair into `forward` first, looks only then whether
the range value is taken, and throws with the pair left behind.

**Where nothing throws** the two maps are those of a `Foundation.InjectiveFunction`, in which
the mirror law is a field; `insert_forget` is the refinement. **Where something throws** the map
has changed, and the value it has gained stays without a mirror. Which of the two it is can be
read off the pairs: only the first pair of each domain value counts (`firsts`), and no two of
these may have the same range value.
-/

namespace McMini.InjectiveInserts

open Foundation (InjectiveFunction lookup_insert)

universe u

variable {α β : Type u} [DecidableEq α] [DecidableEq β]

/-- What a call may throw. -/
inductive Exception where
  | invalidInsertion (msg : String)
  | outOfRange
  deriving DecidableEq, Repr

/-- `unordered_map::insert`: a key which is there keeps its value. -/
def insertNew {κ ν : Type u} [DecidableEq κ] (m : Finmap fun _ : κ => ν) (key : κ) (value : ν) :
    (Finmap fun _ : κ => ν) × Bool :=
  if key ∈ m then (m, false) else (m.insert key value, true)

/-- The two maps which an `injective_function` is made of. -/
structure HashMaps (α β : Type u) [DecidableEq α] [DecidableEq β] where
  forward : Finmap fun _ : α => β
  backward : Finmap fun _ : β => α

namespace HashMaps

variable {f : HashMaps α β} {vt : α × β}

def empty : HashMaps α β := ⟨∅, ∅⟩

def size (f : HashMaps α β) : ℕ := f.forward.keys.card

def «at» (f : HashMaps α β) (key : α) : Except Exception β :=
  match f.forward.lookup key with
  | some r => .ok r
  | none => .error .outOfRange

def rangeAt (f : HashMaps α β) (key : β) : Except Exception α :=
  match f.backward.lookup key with
  | some d => .ok d
  | none => .error .outOfRange

def countDomain (f : HashMaps α β) (key : α) : ℕ := if key ∈ f.forward then 1 else 0

def countRange (f : HashMaps α β) (key : β) : ℕ := if key ∈ f.backward then 1 else 0

/-- What the message of a rejected insertion says. -/
def invalidInsertionMsg : String :=
  "A value in the domain already maps to this value. This would break the one-to-one " ++
    "invariance of this mapping"

/-- `insert`: whether the pair is new, or the exception, and the maps as the call leaves
them. -/
def insert (f : HashMaps α β) (vt : α × β) : Except Exception Bool × HashMaps α β :=
  let result := insertNew f.forward vt.1 vt.2
  let inserted : HashMaps α β := ⟨result.1, f.backward⟩
  -- the pair is in `forward` already when the exception is thrown
  if result.2 ∧ inserted.countRange vt.2 ≠ 0 then
    (.error (.invalidInsertion invalidInsertionMsg), inserted)
  else if result.2 then
    (.ok true, ⟨result.1, (insertNew f.backward vt.2 vt.1).1⟩)
  else (.ok false, inserted)

/-- The maps after a sequence of insertions whose exceptions are caught. -/
def insertAll (f : HashMaps α β) (vts : List (α × β)) : HashMaps α β :=
  vts.foldl (fun g vt => (g.insert vt).2) f

/-- The law of the class: the maps are mirrors, the mapping is one-to-one, and the queries
tell the same about it. -/
structure Consistent (f : HashMaps α β) : Prop where
  mirrored : ∀ d r, f.forward.lookup d = some r ↔ f.backward.lookup r = some d
  injective : ∀ d d' r, f.«at» d = .ok r → f.«at» d' = .ok r → d = d'
  at_eq_ok_iff : ∀ d r, f.«at» d = .ok r ↔ f.rangeAt r = .ok d
  countDomain_eq_one_iff : ∀ d, f.countDomain d = 1 ↔ ∃ r, f.«at» d = .ok r
  countDomain_eq_zero_iff : ∀ d, f.countDomain d = 0 ↔ f.«at» d = .error .outOfRange
  countRange_eq_one_iff : ∀ r, f.countRange r = 1 ↔ ∃ d, f.rangeAt r = .ok d
  countRange_eq_zero_iff : ∀ r, f.countRange r = 0 ↔ f.rangeAt r = .error .outOfRange
  size_eq_domain : f.size = {d | f.countDomain d = 1}.ncard
  size_eq_range : f.size = {r | f.countRange r = 1}.ncard

/-! ### The queries -/

theorem at_eq_ok {d : α} {r : β} : f.«at» d = .ok r ↔ f.forward.lookup d = some r := by
  rw [«at»]
  split <;> simp_all

theorem rangeAt_eq_ok {d : α} {r : β} : f.rangeAt r = .ok d ↔ f.backward.lookup r = some d := by
  rw [rangeAt]
  split <;> simp_all

theorem at_eq_error {d : α} : f.«at» d = .error .outOfRange ↔ d ∉ f.forward := by
  rw [«at», ← Finmap.lookup_eq_none]
  split <;> simp_all

theorem rangeAt_eq_error {r : β} : f.rangeAt r = .error .outOfRange ↔ r ∉ f.backward := by
  rw [rangeAt, ← Finmap.lookup_eq_none]
  split <;> simp_all

theorem countDomain_eq_one {d : α} : f.countDomain d = 1 ↔ d ∈ f.forward := by
  simp [countDomain]

theorem countRange_eq_one {r : β} : f.countRange r = 1 ↔ r ∈ f.backward := by
  simp [countRange]

theorem countDomain_eq_zero {d : α} : f.countDomain d = 0 ↔ d ∉ f.forward := by
  simp [countDomain]

theorem countRange_eq_zero {r : β} : f.countRange r = 0 ↔ r ∉ f.backward := by
  simp [countRange]

/-! ### The three ways in which an insertion ends -/

theorem insert_of_mem (h : vt.1 ∈ f.forward) : f.insert vt = (.ok false, f) := by
  simp [insert, insertNew, h]

theorem insert_of_taken (h : vt.1 ∉ f.forward) (ht : vt.2 ∈ f.backward) :
    f.insert vt = (.error (.invalidInsertion invalidInsertionMsg),
      ⟨f.forward.insert vt.1 vt.2, f.backward⟩) := by
  simp [insert, insertNew, h, countRange, ht]

theorem insert_of_new (h : vt.1 ∉ f.forward) (ht : vt.2 ∉ f.backward) :
    f.insert vt = (.ok true, ⟨f.forward.insert vt.1 vt.2, f.backward.insert vt.2 vt.1⟩) := by
  simp [insert, insertNew, h, countRange, ht]

/-- An insertion throws where the domain value is new and the range value is not. -/
theorem insert_eq_error_iff :
    (∃ e, (f.insert vt).1 = .error e) ↔ vt.1 ∉ f.forward ∧ vt.2 ∈ f.backward := by
  by_cases h : vt.1 ∈ f.forward
  · simp [insert_of_mem h, h]
  · by_cases ht : vt.2 ∈ f.backward
    · simp [insert_of_taken h ht, h, ht]
    · simp [insert_of_new h ht, ht]

theorem forward_insert (d : α) :
    d ∈ (f.insert vt).2.forward ↔ d = vt.1 ∨ d ∈ f.forward := by
  by_cases h : vt.1 ∈ f.forward
  · rw [insert_of_mem h]
    refine ⟨Or.inr, ?_⟩
    rintro (rfl | hd)
    · exact h
    · exact hd
  · by_cases ht : vt.2 ∈ f.backward
    · rw [insert_of_taken h ht, Finmap.mem_insert]
    · rw [insert_of_new h ht, Finmap.mem_insert]

/-- The range values known are those of the pairs whose domain value was new. -/
theorem backward_insert (r : β) :
    r ∈ (f.insert vt).2.backward ↔ (vt.1 ∉ f.forward ∧ r = vt.2) ∨ r ∈ f.backward := by
  by_cases h : vt.1 ∈ f.forward
  · simp [insert_of_mem h, h]
  · by_cases ht : vt.2 ∈ f.backward
    · rw [insert_of_taken h ht]
      refine ⟨Or.inr, ?_⟩
      rintro (⟨-, rfl⟩ | hr)
      · exact ht
      · exact hr
    · rw [insert_of_new h ht, Finmap.mem_insert]
      simp [h]

theorem insertAll_snoc (vts : List (α × β)) (vt : α × β) :
    f.insertAll (vts ++ [vt]) = ((f.insertAll vts).insert vt).2 := by
  rw [insertAll, List.foldl_append]
  rfl

/-! ### The maps of a one-to-one mapping -/

/-- The two maps of a one-to-one mapping. -/
def ofFunction (g : InjectiveFunction α β) : HashMaps α β := ⟨g.forward, g.backward⟩

theorem consistent_ofFunction (g : InjectiveFunction α β) : (ofFunction g).Consistent where
  mirrored := g.mirrored
  injective := by
    intro d d' r hd hd'
    exact g.lookup_injective (at_eq_ok.mp hd) (at_eq_ok.mp hd')
  at_eq_ok_iff := by
    intro d r
    rw [at_eq_ok, rangeAt_eq_ok]
    exact g.mirrored d r
  countDomain_eq_one_iff := by
    intro d
    rw [countDomain_eq_one, Finmap.mem_iff]
    exact exists_congr fun r => at_eq_ok.symm
  countDomain_eq_zero_iff d := countDomain_eq_zero.trans at_eq_error.symm
  countRange_eq_one_iff := by
    intro r
    rw [countRange_eq_one, Finmap.mem_iff]
    exact exists_congr fun d => rangeAt_eq_ok.symm
  countRange_eq_zero_iff r := countRange_eq_zero.trans rangeAt_eq_error.symm
  size_eq_domain := by
    have hkeys : {d | (ofFunction g).countDomain d = 1} = ↑g.forward.keys := by
      ext d
      exact countDomain_eq_one.trans Finmap.mem_keys.symm
    rw [hkeys, Set.ncard_coe_finset]
    rfl
  size_eq_range := by
    have hkeys : {r | (ofFunction g).countRange r = 1} = ↑g.backward.keys := by
      ext r
      exact countRange_eq_one.trans Finmap.mem_keys.symm
    rw [hkeys, Set.ncard_coe_finset, g.card_backward_keys]
    rfl

/-- An insertion which does not throw is one into the one-to-one mapping. -/
theorem insert_ofFunction {g : InjectiveFunction α β}
    (h : ¬ ∃ e, ((ofFunction g).insert vt).1 = .error e) :
    ∃ g', g.insert vt.1 vt.2 = some g' ∧ ((ofFunction g).insert vt).2 = ofFunction g' := by
  by_cases hmem : vt.1 ∈ g.forward
  · refine ⟨g, dif_pos hmem, ?_⟩
    rw [insert_of_mem hmem]
  · have hnew : vt.2 ∉ g.backward := fun ht => h (insert_eq_error_iff.mpr ⟨hmem, ht⟩)
    refine ⟨_, (dif_neg hmem).trans (dif_neg hnew), ?_⟩
    rw [insert_of_new hmem hnew]
    rfl

/-- An insertion which throws has changed the maps. -/
theorem insert_ne_of_error (h : ∃ e, (f.insert vt).1 = .error e) : (f.insert vt).2 ≠ f := by
  intro heq
  have hmem : vt.1 ∈ (f.insert vt).2.forward := (forward_insert vt.1).mpr (.inl rfl)
  rw [heq] at hmem
  exact (insert_eq_error_iff.mp h).1 hmem

end HashMaps

open HashMaps

/-! ### The insertions which count -/

/-- The first pair of each domain value. -/
def firsts {β : Type u} : List (α × β) → List (α × β)
  | [] => []
  | vt :: vts => vt :: (firsts vts).filter (fun wt => wt.1 ≠ vt.1)

theorem firsts_snoc {β : Type u} (vts : List (α × β)) (vt : α × β) :
    firsts (vts ++ [vt]) = firsts vts ++ if vt.1 ∈ vts.map Prod.fst then [] else [vt] := by
  induction vts with
  | nil => simp [firsts]
  | cons wt vts ih =>
    rw [List.cons_append, firsts, ih, List.filter_append, firsts, List.cons_append]
    by_cases hmem : vt.1 ∈ vts.map Prod.fst
    · simp [hmem]
    · by_cases heq : vt.1 = wt.1
      · simp [heq]
      · simp [hmem, heq]

section AfterInsertions

variable {vts : List (α × β)}

theorem mem_forward_insertAll (vts : List (α × β)) (d : α) :
    d ∈ ((empty : HashMaps α β).insertAll vts).forward ↔ d ∈ vts.map Prod.fst := by
  induction vts using List.reverseRecOn with
  | nil => exact ⟨fun h => absurd h Finmap.notMem_empty, fun h => absurd h List.not_mem_nil⟩
  | append_singleton vts vt ih =>
    rw [insertAll_snoc, forward_insert, ih, List.map_append, List.mem_append, or_comm]
    simp

theorem mem_backward_insertAll (vts : List (α × β)) (r : β) :
    r ∈ ((empty : HashMaps α β).insertAll vts).backward ↔ r ∈ (firsts vts).map Prod.snd := by
  induction vts using List.reverseRecOn with
  | nil => exact ⟨fun h => absurd h Finmap.notMem_empty, fun h => absurd h List.not_mem_nil⟩
  | append_singleton vts vt ih =>
    rw [insertAll_snoc, backward_insert, ih, mem_forward_insertAll, firsts_snoc]
    by_cases hmem : vt.1 ∈ vts.map Prod.fst
    · simp [hmem]
    · rw [if_neg hmem, List.map_append, List.mem_append, or_comm]
      simp [hmem]

/-- The insertion of `vt` after those of `vts` throws. -/
def Throws (vts : List (α × β)) (vt : α × β) : Prop :=
  ∃ e, (((empty : HashMaps α β).insertAll vts).insert vt).1 = .error e

theorem throws_iff {vt : α × β} :
    Throws vts vt ↔ vt.1 ∉ vts.map Prod.fst ∧ vt.2 ∈ (firsts vts).map Prod.snd := by
  rw [Throws, insert_eq_error_iff, mem_forward_insertAll, mem_backward_insertAll]

/-- No insertion of the sequence throws. -/
def NoThrow (vts : List (α × β)) : Prop :=
  ∀ before vt, before ++ [vt] <+: vts → ¬ Throws before vt

theorem noThrow_snoc {vt : α × β} : NoThrow (vts ++ [vt]) ↔ NoThrow vts ∧ ¬ Throws vts vt := by
  constructor
  · intro h
    exact ⟨fun before wt hwt => h before wt (hwt.trans (List.prefix_append _ _)),
      h vts vt (List.prefix_refl _)⟩
  · rintro ⟨hvts, hvt⟩ before wt hwt
    rcases List.prefix_concat_iff.mp hwt with heq | hshort
    · obtain ⟨rfl, rfl⟩ := List.append_singleton_inj.mp heq
      exact hvt
    · exact hvts before wt hshort

/-- The first pairs have different range values exactly where nothing throws. -/
theorem nodup_firsts_iff (vts : List (α × β)) :
    ((firsts vts).map Prod.snd).Nodup ↔ NoThrow vts := by
  induction vts using List.reverseRecOn with
  | nil =>
    refine ⟨fun _ before vt h => ?_, fun _ => List.nodup_nil⟩
    simp at h
  | append_singleton vts vt ih =>
    rw [noThrow_snoc, ← ih, throws_iff, firsts_snoc]
    by_cases hmem : vt.1 ∈ vts.map Prod.fst
    · simp [hmem]
    · have hnodup : ∀ rs : List β, ∀ r, (rs ++ [r]).Nodup ↔ rs.Nodup ∧ r ∉ rs := by
        intro rs r
        rw [← List.concat_eq_append, List.nodup_concat]
        exact and_comm
      rw [if_neg hmem, List.map_append, List.map_singleton, hnodup]
      exact and_congr_right fun _ => (not_congr (and_iff_right hmem)).symm

/-- Where nothing throws the maps are those of a one-to-one mapping. -/
theorem exists_ofFunction (vts : List (α × β)) (h : NoThrow vts) :
    ∃ g, (empty : HashMaps α β).insertAll vts = ofFunction g := by
  induction vts using List.reverseRecOn with
  | nil => exact ⟨InjectiveFunction.empty, rfl⟩
  | append_singleton vts vt ih =>
    obtain ⟨hvts, hvt⟩ := noThrow_snoc.mp h
    obtain ⟨g, hg⟩ := ih hvts
    rw [Throws, hg] at hvt
    obtain ⟨g', -, hg'⟩ := insert_ofFunction hvt
    exact ⟨g', by rw [insertAll_snoc, hg, hg']⟩

/-- After the insertions the maps are consistent, and each of them which threw left the maps
as they were. -/
def StaysInjective (vts : List (α × β)) : Prop :=
  ((empty : HashMaps α β).insertAll vts).Consistent ∧
    ∀ before vt, before ++ [vt] <+: vts → Throws before vt →
      ((empty.insertAll before).insert vt).2 = empty.insertAll before

/-- The map stays injective exactly where the first pairs of the domain values have different
range values. -/
theorem staysInjective_iff (vts : List (α × β)) :
    StaysInjective vts ↔ ((firsts vts).map Prod.snd).Nodup := by
  rw [nodup_firsts_iff]
  constructor
  · rintro ⟨-, hunchanged⟩ before vt hvt hthrows
    exact insert_ne_of_error hthrows (hunchanged before vt hvt hthrows)
  · intro h
    obtain ⟨g, hg⟩ := exists_ofFunction vts h
    refine ⟨hg ▸ consistent_ofFunction g, ?_⟩
    intro before vt hvt hthrows
    exact absurd hthrows (h before vt hvt)

/-- Two domain values for one range value: the second insertion throws, and stays. -/
theorem not_staysInjective_twice : ¬ StaysInjective [((0 : ℕ), (7 : ℕ)), (1, 7)] := by
  intro h
  have hmirror := h.1.mirrored 1 7
  have hforward : ((empty : HashMaps ℕ ℕ).insertAll [(0, 7), (1, 7)]).forward.lookup 1 = some 7 :=
    by decide
  have hbackward : ((empty : HashMaps ℕ ℕ).insertAll [(0, 7), (1, 7)]).backward.lookup 7 =
      some 0 := by decide
  rw [hforward, hbackward] at hmirror
  exact absurd (hmirror.mp rfl) (by decide)

end AfterInsertions

end McMini.InjectiveInserts
