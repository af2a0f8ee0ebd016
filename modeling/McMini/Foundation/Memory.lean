import Mathlib.Data.List.Infix

/-!
# Computations over a growing memory

Cells are allocated one after the other and are never freed. A computation over a memory reads
cells, overwrites them in place and allocates new ones, and what it has done to the memory stays
when it fails. It *implements* a computation without a memory (`Implements`) when it leaves alone
every cell which was there before, and the two end alike, up to a relation between their results
which may depend on the memory left behind. So whatever is stored in old cells reads the same
after any number of computations, completed or given up.
-/

namespace McMini.Foundation

/-- The cells, in the order of their allocation; an address is a position. -/
abbrev Memory (σ : Type) := List σ

/-- Computations which may fail, over a memory. -/
abbrev MemoryM (ε σ : Type) := ExceptT ε (StateM (Memory σ))

namespace MemoryM

variable {ε σ α β γ δ : Type} {cells : Memory σ}

/-- Allocates a cell, and answers its address. -/
def alloc (v : σ) : MemoryM ε σ ℕ :=
  ExceptT.mk fun cells => (.ok cells.length, cells ++ [v])

/-- The content of a cell. It is an error, `dangling`, to read where there is none. -/
def read (dangling : ε) (a : ℕ) : MemoryM ε σ σ :=
  ExceptT.mk fun cells => (cells[a]?.elim (.error dangling) .ok, cells)

/-- Overwrites a cell in place. -/
def write (dangling : ε) (a : ℕ) (v : σ) : MemoryM ε σ Unit :=
  ExceptT.mk fun cells =>
    if a < cells.length then (.ok (), cells.set a v) else (.error dangling, cells)

/-! ### Runs -/

@[simp]
theorem run_pure (a : α) : (pure a : MemoryM ε σ α).run cells = (.ok a, cells) := rfl

@[simp]
theorem run_throw (e : ε) : (throw e : MemoryM ε σ α).run cells = (.error e, cells) := rfl

@[simp]
theorem run_alloc (v : σ) :
    (alloc v : MemoryM ε σ ℕ).run cells = (.ok cells.length, cells ++ [v]) := rfl

theorem run_read {dangling : ε} {a : ℕ} {v : σ} (h : cells[a]? = some v) :
    (read dangling a).run cells = (.ok v, cells) := by
  show (cells[a]?.elim (Except.error dangling) Except.ok, cells) = _
  rw [h, Option.elim_some]

theorem run_write {dangling : ε} {a : ℕ} (h : a < cells.length) (v : σ) :
    (write dangling a v).run cells = (.ok (), cells.set a v) := if_pos h

theorem run_bind_of_ok {x : MemoryM ε σ α} {cells' : Memory σ} {a : α}
    (h : x.run cells = (.ok a, cells')) (f : α → MemoryM ε σ β) :
    (x >>= f).run cells = (f a).run cells' := by
  have hbind : (x >>= f).run cells = ExceptT.bindCont f (x.run cells).1 (x.run cells).2 := rfl
  rw [hbind, h]
  rfl

theorem run_bind_of_error {x : MemoryM ε σ α} {cells' : Memory σ} {e : ε}
    (h : x.run cells = (.error e, cells')) (f : α → MemoryM ε σ β) :
    (x >>= f).run cells = (.error e, cells') := by
  have hbind : (x >>= f).run cells = ExceptT.bindCont f (x.run cells).1 (x.run cells).2 := rfl
  rw [hbind, h]
  rfl

/-! #### A cell just allocated -/

theorem run_write_append {dangling : ε} (v w : σ) (rest : Memory σ) :
    (write dangling cells.length w).run (cells ++ v :: rest) = (.ok (), cells ++ w :: rest) := by
  rw [run_write (by simp)]
  simp

end MemoryM

/-! ### Implementing computations without a memory -/

/-- The outcomes agree: the same error, or related results. -/
inductive Agree {ε α β : Type} (R : α → β → Prop) : Except ε α → Except ε β → Prop
  | ok {a : α} {b : β} (h : R a b) : Agree R (.ok a) (.ok b)
  | error (e : ε) : Agree R (.error e) (.error e)

section

variable {ε σ α β γ δ : Type} {R : Memory σ → α → β → Prop} {S : Memory σ → γ → δ → Prop}
  {cells : Memory σ} {x x' : MemoryM ε σ α} {y y' : Except ε β}

theorem Agree.mono {R R' : α → β → Prop} {r : Except ε α} {r' : Except ε β} (h : Agree R r r')
    (hmono : ∀ a b, R a b → R' a b) : Agree R' r r' := by
  cases h with
  | ok hab => exact .ok (hmono _ _ hab)
  | error e => exact .error e

/-- Run in the memory `cells`, the computation `x` only adds cells, and it ends as `y` does. -/
def Implements (R : Memory σ → α → β → Prop) (cells : Memory σ) (x : MemoryM ε σ α)
    (y : Except ε β) : Prop :=
  cells <+: (x.run cells).2 ∧ Agree (R (x.run cells).2) (x.run cells).1 y

theorem implements_of_run {cells' : Memory σ} {r : Except ε α} (hrun : x.run cells = (r, cells'))
    (hcells : cells <+: cells') (h : Agree (R cells') r y) : Implements R cells x y := by
  rw [Implements, hrun]
  exact ⟨hcells, h⟩

theorem implements_pure {a : α} {b : β} (h : R cells a b) :
    Implements R cells (pure a) (pure b : Except ε β) := ⟨List.prefix_rfl, .ok h⟩

theorem implements_ite {c : Prop} [Decidable c] (h : Implements R cells x y)
    (h' : Implements R cells x' y') :
    Implements R cells (if c then x else x') (if c then y else y') := by
  by_cases hc : c
  · rwa [if_pos hc, if_pos hc]
  · rwa [if_neg hc, if_neg hc]

/-- Implementations are composed: the second part starts from whatever memory, with the old cells
in it, and from whatever related results the first part leaves behind. -/
theorem implements_bind {f : α → MemoryM ε σ γ} {g : β → Except ε δ} (h : Implements R cells x y)
    (hrest : ∀ cells' a b, cells <+: cells' → R cells' a b → Implements S cells' (f a) (g b)) :
    Implements S cells (x >>= f) (y >>= g) := by
  obtain ⟨hcells, hagree⟩ := h
  rcases hrun : x.run cells with ⟨r, cells'⟩
  rw [hrun] at hcells hagree
  cases hagree with
  | error e => exact implements_of_run (MemoryM.run_bind_of_error hrun f) hcells (.error e)
  | ok hab =>
    obtain ⟨hcells', hagree'⟩ := hrest cells' _ _ hcells hab
    rw [Implements, MemoryM.run_bind_of_ok hrun f]
    exact ⟨hcells.trans hcells', hagree'⟩

/-- A first part which implements a value does not show in what is implemented. -/
theorem implements_bind_pure {f : α → MemoryM ε σ γ} {z : Except ε δ} {b : β}
    (h : Implements R cells x (pure b : Except ε β))
    (hrest : ∀ cells' a, cells <+: cells' → R cells' a b → Implements S cells' (f a) z) :
    Implements S cells (x >>= f) z := by
  obtain ⟨hcells, hagree⟩ := h
  rcases hrun : x.run cells with ⟨r, cells'⟩
  rw [hrun] at hcells hagree
  cases hagree with
  | ok hab =>
    obtain ⟨hcells', hagree'⟩ := hrest cells' _ hcells hab
    rw [Implements, MemoryM.run_bind_of_ok hrun f]
    exact ⟨hcells.trans hcells', hagree'⟩

/-- A first part which only reads the memory. -/
theorem implements_bind_of_run {f : α → MemoryM ε σ γ} {z : Except ε δ} {a : α}
    (hrun : x.run cells = (.ok a, cells)) (h : Implements S cells (f a) z) :
    Implements S cells (x >>= f) z := by
  rw [Implements, MemoryM.run_bind_of_ok hrun f]
  exact h

/-- A first part which does not touch the memory. -/
theorem implements_bind_liftM {R : α → β → Prop} {r : Except ε α} {f : α → MemoryM ε σ γ}
    {g : β → Except ε δ} (h : Agree R r y)
    (hrest : ∀ a b, R a b → Implements S cells (f a) (g b)) :
    Implements S cells (liftM r >>= f) (y >>= g) := by
  cases h with
  | error e => exact ⟨List.prefix_rfl, .error e⟩
  | ok hab => exact hrest _ _ hab

/-- The first part does not touch the memory and has the same result in both. -/
theorem implements_bind_liftM_eq {r y : Except ε α} {f : α → MemoryM ε σ γ} {g : α → Except ε δ}
    (h : Agree (· = ·) r y) (hrest : ∀ a, Implements S cells (f a) (g a)) :
    Implements S cells (liftM r >>= f) (y >>= g) := by
  refine implements_bind_liftM h ?_
  rintro a _ rfl
  exact hrest a

end

end McMini.Foundation
