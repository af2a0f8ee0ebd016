import Mathlib.Logic.Relation
import Mathlib.Order.Bounds.Basic

/-!
# Happens-before and vector clocks

A trace is a list of events, each of which belongs to an owner. An event *happens before* a
later one when a chain of dependent events leads from one to the other: `HappensBefore` is
the reflexive-transitive closure of "earlier in the trace and dependent" on the positions.

A *clock* of the event at a position maps each owner to the last of its events which happens
before the event there, and to `0` if there is none. Positions are counted from `0`, the
entries of clocks from `1` (`IsClock`).

Clocks are computed from one another. The clock of a new event joins clocks of some earlier
events and sets the entry of the new event's owner. `isClock_concat_iff` says exactly for
which events this works: they must have the same past as the events the new one directly
depends on, as far as other owners are concerned (`SamePast`). The hypothesis needed
throughout is that the events of one owner depend on each other.
-/

namespace McMini.Foundation

variable {α ρ : Type*}

/-- The event at position `j` depends on the one at `i`, which is earlier. -/
def Precedes (dep : α → α → Prop) (l : List α) (i j : ℕ) : Prop :=
  i < j ∧ ∃ a b, l[i]? = some a ∧ l[j]? = some b ∧ dep a b

/-- A chain of dependent events leads from position `i` to position `j`. -/
def HappensBefore (dep : α → α → Prop) (l : List α) : ℕ → ℕ → Prop :=
  Relation.ReflTransGen (Precedes dep l)

section HappensBefore

variable {dep : α → α → Prop} {l l' : List α} {a : α} {i j : ℕ}

theorem HappensBefore.le (h : HappensBefore dep l i j) : i ≤ j := by
  induction h with
  | refl => exact le_rfl
  | tail _ hstep ih => exact ih.trans hstep.1.le

theorem precedes_append_left (hj : j < l.length) :
    Precedes dep (l ++ l') i j ↔ Precedes dep l i j := by
  refine and_congr_right fun hij => ?_
  rw [List.getElem?_append_left (hij.trans hj), List.getElem?_append_left hj]

/-- What happens before an event of a trace does not change when the trace grows. -/
theorem happensBefore_append_left (hj : j < l.length) :
    HappensBefore dep (l ++ l') i j ↔ HappensBefore dep l i j := by
  constructor
  · intro h
    induction h with
    | refl => exact .refl
    | tail _ hstep ih =>
      have hlt := hstep.1.trans hj
      exact (ih hlt).tail ((precedes_append_left hj).mp hstep)
  · intro h
    induction h with
    | refl => exact .refl
    | tail _ hstep ih =>
      have hlt := hstep.1.trans hj
      exact (ih hlt).tail ((precedes_append_left hj).mpr hstep)

/-- The positions of the events which a new event directly depends on. -/
def directlyBefore (dep : α → α → Prop) (l : List α) (a : α) : Set ℕ :=
  {k | ∃ b, l[k]? = some b ∧ dep b a}

/-- What happens before a new event happens before an event it directly depends on. -/
theorem happensBefore_concat_iff :
    HappensBefore dep (l ++ [a]) i l.length ↔
      i = l.length ∨ ∃ k ∈ directlyBefore dep l a, HappensBefore dep l i k := by
  have hlast : (l ++ [a])[l.length]? = some a := by simp
  constructor
  · intro h
    rcases Relation.ReflTransGen.cases_tail h with heq | ⟨k, hik, hk, b, c, hb, hc, hdep⟩
    · exact .inl heq.symm
    · obtain rfl : a = c := Option.some.inj (hlast.symm.trans hc)
      rw [List.getElem?_append_left hk] at hb
      exact .inr ⟨k, ⟨b, hb, hdep⟩, (happensBefore_append_left hk).mp hik⟩
  · rintro (rfl | ⟨k, ⟨b, hb, hdep⟩, hik⟩)
    · exact .refl
    · have hk : k < l.length := (List.getElem?_eq_some_iff.mp hb).1
      have hb' : (l ++ [a])[k]? = some b := by rw [List.getElem?_append_left hk, hb]
      exact ((happensBefore_append_left hk).mpr hik).tail ⟨hk, b, a, hb', hlast, hdep⟩

end HappensBefore

/-! ### Clocks -/

/-- The events of an owner which happen before the one at position `k`, counted from `1`. -/
def ticks (dep : α → α → Prop) (owner : α → ρ) (l : List α) (k : ℕ) (r : ρ) : Set ℕ :=
  {n | ∃ i b, n = i + 1 ∧ l[i]? = some b ∧ owner b = r ∧ HappensBefore dep l i k}

/-- The function maps each owner to its last event which happens before the one at position
`k`, or to `0`. -/
def IsClock (dep : α → α → Prop) (owner : α → ρ) (l : List α) (k : ℕ) (c : ρ → ℕ) : Prop :=
  ∀ r, IsGreatest (insert 0 (ticks dep owner l k r)) (c r)

/-- The events at the positions in `K` have the same past as those the event `a` directly
depends on, its own owner left aside. -/
def SamePast (dep : α → α → Prop) (owner : α → ρ) (l : List α) (a : α) (K : Set ℕ) : Prop :=
  ∀ i b, l[i]? = some b → owner b ≠ owner a →
    ((∃ k ∈ K, HappensBefore dep l i k) ↔
      ∃ k ∈ directlyBefore dep l a, HappensBefore dep l i k)

/-- The event at the position happens before an event of the owner, or is one. -/
def HappensBeforeOwner (dep : α → α → Prop) (owner : α → ρ) (l : List α) (i : ℕ) (p : ρ) : Prop :=
  ∃ k b, l[k]? = some b ∧ owner b = p ∧ HappensBefore dep l i k

/-- The function maps each owner to its last event which happens before an event of the owner
`p`, or to `0`. -/
def IsOwnerClock (dep : α → α → Prop) (owner : α → ρ) (l : List α) (p : ρ) (c : ρ → ℕ) : Prop :=
  ∀ r, IsGreatest (insert 0 {n | ∃ i b, n = i + 1 ∧ l[i]? = some b ∧ owner b = r ∧
    HappensBeforeOwner dep owner l i p}) (c r)

section Clocks

variable {dep : α → α → Prop} {owner : α → ρ} {l l' : List α} {a : α} {i j k : ℕ} {r p : ρ}

theorem ticks_append_left (hk : k < l.length) :
    ticks dep owner (l ++ l') k r = ticks dep owner l k r := by
  ext n
  refine exists_congr fun i => exists_congr fun b => and_congr_right fun _ => ?_
  rw [happensBefore_append_left hk]
  constructor
  · rintro ⟨hb, hr, hik⟩
    have hi : i < l.length := hik.le.trans_lt hk
    exact ⟨by rwa [List.getElem?_append_left hi] at hb, hr, hik⟩
  · rintro ⟨hb, hr, hik⟩
    have hi : i < l.length := hik.le.trans_lt hk
    exact ⟨by rwa [List.getElem?_append_left hi], hr, hik⟩

/-- The clock of an event does not change when the trace grows. -/
theorem isClock_append_left {c : ρ → ℕ} (hk : k < l.length) :
    IsClock dep owner (l ++ l') k c ↔ IsClock dep owner l k c :=
  forall_congr' fun r => by rw [ticks_append_left hk]

theorem isClock_take {c : ρ → ℕ} {n : ℕ} (hn : n ≤ l.length) (hk : k < n) :
    IsClock dep owner (l.take n) k c ↔ IsClock dep owner l k c := by
  have hlen : k < (l.take n).length := by rw [List.length_take]; omega
  conv_rhs => rw [← List.take_append_drop n l]
  exact (isClock_append_left hlen).symm

/-- The events of an owner which happen before one of the events at the positions in `K`. -/
private def ticksOf (dep : α → α → Prop) (owner : α → ρ) (l : List α) (K : Set ℕ) (r : ρ) :
    Set ℕ :=
  {n | ∃ i b, n = i + 1 ∧ l[i]? = some b ∧ owner b = r ∧ ∃ k ∈ K, HappensBefore dep l i k}

private theorem succ_mem_ticksOf {K : Set ℕ} {b : α} (hb : l[i]? = some b) :
    i + 1 ∈ ticksOf dep owner l K (owner b) ↔ ∃ k ∈ K, HappensBefore dep l i k := by
  constructor
  · rintro ⟨j, c, hij, -, -, h⟩
    obtain rfl : i = j := by omega
    exact h
  · intro h
    exact ⟨i, b, rfl, hb, rfl, h⟩

private theorem samePast_iff_ticksOf {K : Set ℕ} :
    SamePast dep owner l a K ↔ ∀ r, r ≠ owner a →
      ticksOf dep owner l K r = ticksOf dep owner l (directlyBefore dep l a) r := by
  constructor
  · intro h r hr
    ext n
    constructor
    · rintro ⟨i, b, rfl, hb, rfl, hi⟩
      exact ⟨i, b, rfl, hb, rfl, (h i b hb hr).mp hi⟩
    · rintro ⟨i, b, rfl, hb, rfl, hi⟩
      exact ⟨i, b, rfl, hb, rfl, (h i b hb hr).mpr hi⟩
  · intro h i b hb hne
    have heq := Set.ext_iff.mp (h (owner b) hne) (i + 1)
    rwa [succ_mem_ticksOf hb, succ_mem_ticksOf hb] at heq

/-- The events of another owner which happen before a new event. -/
private theorem ticks_concat (hr : r ≠ owner a) :
    ticks dep owner (l ++ [a]) l.length r =
      ticksOf dep owner l (directlyBefore dep l a) r := by
  have hlast : (l ++ [a])[l.length]? = some a := by simp
  ext n
  constructor
  · rintro ⟨i, b, rfl, hb, hbr, hi⟩
    rcases happensBefore_concat_iff.mp hi with rfl | ⟨k, ⟨d, hd, hdep⟩, hik⟩
    · obtain rfl : a = b := Option.some.inj (hlast.symm.trans hb)
      exact absurd hbr.symm hr
    · have hlt : i < l.length := hik.le.trans_lt (List.getElem?_eq_some_iff.mp hd).1
      rw [List.getElem?_append_left hlt] at hb
      exact ⟨i, b, rfl, hb, hbr, k, ⟨d, hd, hdep⟩, hik⟩
  · rintro ⟨i, b, rfl, hb, hbr, hi⟩
    have hlt : i < l.length := (List.getElem?_eq_some_iff.mp hb).1
    have hb' : (l ++ [a])[i]? = some b := by rw [List.getElem?_append_left hlt, hb]
    exact ⟨i, b, rfl, hb', hbr, happensBefore_concat_iff.mpr (.inr hi)⟩

/-- A new event is the last of its owner's. -/
private theorem isGreatest_ticks_concat_self :
    IsGreatest (insert 0 (ticks dep owner (l ++ [a]) l.length (owner a))) (l.length + 1) := by
  have hlast : (l ++ [a])[l.length]? = some a := by simp
  refine ⟨.inr ⟨l.length, a, rfl, hlast, rfl, .refl⟩, ?_⟩
  rintro n (rfl | ⟨i, b, rfl, -, -, hi⟩)
  · exact Nat.zero_le _
  · exact Nat.succ_le_succ hi.le

/-- Joined clocks give the last of the events which happen before the joined ones. -/
private theorem isGreatest_ticksOf {K : Set ℕ} {c : ℕ → ρ → ℕ} {n : ℕ}
    (hclock : ∀ k ∈ K, IsClock dep owner l k (c k))
    (hjoin : IsGreatest (insert 0 ((c · r) '' K)) n) :
    IsGreatest (insert 0 (ticksOf dep owner l K r)) n := by
  obtain ⟨hmem, hub⟩ := hjoin
  constructor
  · rcases hmem with hzero | ⟨k, hk, hck⟩
    · exact .inl hzero
    · rw [← hck]
      refine (hclock k hk r).1.imp id ?_
      rintro ⟨i, b, hn, hb, hbr, hik⟩
      exact ⟨i, b, hn, hb, hbr, k, hk, hik⟩
  · rintro m (rfl | ⟨i, b, hm, hb, hbr, k, hk, hik⟩)
    · exact Nat.zero_le _
    · have hle : m ≤ c k r := (hclock k hk r).2 (.inr ⟨i, b, hm, hb, hbr, hik⟩)
      exact hle.trans (hub (.inr ⟨k, hk, rfl⟩))

/-- Two sets of positive numbers, each closed under going back in a third one, are the same
when they have the same last element. -/
private theorem isGreatest_insert_zero_iff {P U V : Set ℕ} (hU : U ⊆ P) (hV : V ⊆ P)
    (h0 : ∀ n ∈ P, 0 < n) (hdownU : ∀ m ∈ U, ∀ n ∈ P, n ≤ m → n ∈ U)
    (hdownV : ∀ m ∈ V, ∀ n ∈ P, n ≤ m → n ∈ V) {m : ℕ} (hm : IsGreatest (insert 0 U) m) :
    IsGreatest (insert 0 V) m ↔ U = V := by
  have sub : ∀ {A B : Set ℕ}, A ⊆ P → (∀ m ∈ B, ∀ n ∈ P, n ≤ m → n ∈ B) →
      IsGreatest (insert 0 A) m → IsGreatest (insert 0 B) m → A ⊆ B := by
    intro A B hA hdown hmA hmB n hn
    have hle : n ≤ m := hmA.2 (Set.mem_insert_of_mem 0 hn)
    have hpos : 0 < m := (h0 n (hA hn)).trans_le hle
    rcases hmB.1 with hzero | hmem
    · omega
    · exact hdown m hmem n (hA hn) hle
  constructor
  · intro hm'
    exact Set.Subset.antisymm (sub hU hdownV hm hm') (sub hV hdownU hm' hm)
  · rintro rfl
    exact hm

variable (horder : ∀ a b, owner a = owner b → dep a b)
include horder

/-- The events of one owner happen in their order. -/
theorem happensBefore_of_owner_eq {b c : α} (hij : i ≤ j) (hi : l[i]? = some b)
    (hj : l[j]? = some c) (h : owner b = owner c) : HappensBefore dep l i j := by
  rcases hij.eq_or_lt with rfl | hlt
  · exact .refl
  · exact .single ⟨hlt, b, c, hi, hj, horder b c h⟩

private theorem ticksOf_down {K : Set ℕ} {m n : ℕ} (hm : m ∈ ticksOf dep owner l K r)
    (hn : ∃ i b, n = i + 1 ∧ l[i]? = some b ∧ owner b = r) (hle : n ≤ m) :
    n ∈ ticksOf dep owner l K r := by
  obtain ⟨j, c, rfl, hc, hcr, k, hk, hjk⟩ := hm
  obtain ⟨i, b, rfl, hb, hbr⟩ := hn
  have hij : HappensBefore dep l i j :=
    happensBefore_of_owner_eq horder (by omega) hb hc (hbr.trans hcr.symm)
  exact ⟨i, b, rfl, hb, hbr, k, hk, hij.trans hjk⟩

/-- Joining the clocks of the events at the positions in `K` and setting the entry of the
owner gives the clock of a new event exactly when the joined events have its past. -/
theorem isClock_concat_iff {K : Set ℕ} {c : ℕ → ρ → ℕ} {c' : ρ → ℕ}
    (hclock : ∀ k ∈ K, IsClock dep owner l k (c k))
    (hjoin : ∀ r, r ≠ owner a → IsGreatest (insert 0 ((c · r) '' K)) (c' r))
    (hself : c' (owner a) = l.length + 1) :
    IsClock dep owner (l ++ [a]) l.length c' ↔ SamePast dep owner l a K := by
  have hother : ∀ r, r ≠ owner a →
      (IsGreatest (insert 0 (ticks dep owner (l ++ [a]) l.length r)) (c' r) ↔
        ticksOf dep owner l K r = ticksOf dep owner l (directlyBefore dep l a) r) := by
    intro r hr
    have hsub : ∀ L, ticksOf dep owner l L r ⊆
        {n | ∃ i b, n = i + 1 ∧ l[i]? = some b ∧ owner b = r} := by
      rintro L n ⟨i, b, hn, hb, hbr, -⟩
      exact ⟨i, b, hn, hb, hbr⟩
    have hpos : ∀ n ∈ {n | ∃ i b, n = i + 1 ∧ l[i]? = some b ∧ owner b = r}, 0 < n := by
      rintro n ⟨i, b, rfl, -⟩
      exact Nat.succ_pos i
    rw [ticks_concat hr]
    exact isGreatest_insert_zero_iff (hsub K) (hsub _) hpos
      (fun m hm n hn hle => ticksOf_down horder hm hn hle)
      (fun m hm n hn hle => ticksOf_down horder hm hn hle)
      (isGreatest_ticksOf hclock (hjoin r hr))
  rw [samePast_iff_ticksOf]
  constructor
  · intro h r hr
    exact (hother r hr).mp (h r)
  · intro h r
    by_cases hr : r = owner a
    · rw [hr, hself]
      exact isGreatest_ticks_concat_self
    · exact (hother r hr).mpr (h r hr)

/-! ### Reading clocks -/

theorem HappensBeforeOwner.of_owner_eq {b : α} (h : HappensBeforeOwner dep owner l j p)
    (hij : i ≤ j) (hi : l[i]? = some a) (hj : l[j]? = some b) (howner : owner a = owner b) :
    HappensBeforeOwner dep owner l i p := by
  obtain ⟨k, c, hk, hc, hjk⟩ := h
  exact ⟨k, c, hk, hc, (happensBefore_of_owner_eq horder hij hi hj howner).trans hjk⟩

/-- The clock of an owner tells which events happen before one of its own: those which it has
counted. -/
theorem IsOwnerClock.succ_le_iff {c : ρ → ℕ} (hc : IsOwnerClock dep owner l p c)
    (hi : l[i]? = some a) : i + 1 ≤ c (owner a) ↔ HappensBeforeOwner dep owner l i p := by
  obtain ⟨hmem, hub⟩ := hc (owner a)
  constructor
  · intro hle
    rcases hmem with hzero | ⟨j, b, hj, hb, hba, hjp⟩
    · omega
    · exact hjp.of_owner_eq horder (by omega) hi hb hba.symm
  · intro h
    exact hub (.inr ⟨i, a, rfl, hi, rfl, h⟩)

/-- When positions are compared with a clock as if both were counted from the same number, an
event is taken to happen before one of the owner if the event before it does, and is of the
same owner as it; and so is the first event. -/
theorem IsOwnerClock.le_iff {c : ρ → ℕ} (hc : IsOwnerClock dep owner l p c)
    (hi : l[i]? = some a) :
    i ≤ c (owner a) ↔ HappensBeforeOwner dep owner l i p ∨ i = 0 ∨
      ∃ j b, i = j + 1 ∧ l[j]? = some b ∧ owner b = owner a ∧
        HappensBeforeOwner dep owner l j p := by
  have hsucc := hc.succ_le_iff horder hi
  constructor
  · intro hle
    rcases hle.eq_or_lt with heq | hlt
    · rcases (hc (owner a)).1 with hzero | ⟨j, b, hj, hb, hba, hjp⟩
      · exact .inr (.inl (heq.trans hzero))
      · exact .inr (.inr ⟨j, b, heq.trans hj, hb, hba, hjp⟩)
    · exact .inl (hsucc.mp hlt)
  · rintro (h | rfl | ⟨j, b, rfl, hb, hba, hjp⟩)
    · exact (Nat.le_succ i).trans (hsucc.mpr h)
    · exact Nat.zero_le _
    · exact hba ▸ (hc.succ_le_iff horder hb).mpr hjp

end Clocks

end McMini.Foundation
