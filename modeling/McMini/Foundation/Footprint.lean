import Mathlib.Data.Set.Lattice
import Mathlib.Order.CompletePartialOrder

/-!
# Footprints of partial operations on a store

A store is a state type `σ` with cells `get : σ → ι → α` and a frame `ctx : σ → κ`, the
part no operation changes; a state is determined by the two. A partial operation
`f : σ → Option σ` has the **footprint** `(reads, writes)` at the frame `k` when it changes
only cells in `writes`, and whether it is defined, and what it writes, depends only on the
cells in `reads`.

Operations whose footprints do not conflict neither enable nor disable each other
(`Footprint.isSome_iff`), and they commute (`Footprint.commute`).
-/

namespace McMini.Foundation

variable {σ ι α κ : Type*} {get : σ → ι → α} {ctx : σ → κ}

/-- `f` reads only the cells in `reads`, writes only those in `writes`, and keeps the
frame. -/
structure Footprint (get : σ → ι → α) (ctx : σ → κ) (f : σ → Option σ) (k : κ)
    (reads writes : Set ι) : Prop where
  ctx_eq : ∀ {s s'}, ctx s = k → f s = some s' → ctx s' = k
  frame : ∀ {s s'}, ctx s = k → f s = some s' → ∀ i ∉ writes, get s' i = get s i
  transfer : ∀ {s s' u}, ctx s = k → ctx u = k → (∀ i ∈ reads, get u i = get s i) →
    f s = some s' → ∃ u', f u = some u' ∧ ∀ i ∈ writes, get u' i = get s' i

namespace Footprint

variable {f g : σ → Option σ} {k : κ} {rf wf rg wg : Set ι} {s s₁ s₂ : σ}

/-- An operation which writes nothing `g` reads leaves `g` defined or undefined. -/
theorem isSome_iff (hf : Footprint get ctx f k rf wf) (hg : Footprint get ctx g k rg wg)
    (hk : ctx s = k) (hdisj : Disjoint wf rg) (h : f s = some s₁) :
    (g s).isSome = true ↔ (g s₁).isSome = true := by
  have agree : ∀ i ∈ rg, get s₁ i = get s i := fun i hi =>
    hf.frame hk h i fun hw => Set.disjoint_left.mp hdisj hw hi
  have hk₁ := hf.ctx_eq hk h
  simp only [Option.isSome_iff_exists]
  constructor
  · rintro ⟨s', hs'⟩
    obtain ⟨u', hu', -⟩ := hg.transfer hk hk₁ agree hs'
    exact ⟨u', hu'⟩
  · rintro ⟨s', hs'⟩
    obtain ⟨u', hu', -⟩ := hg.transfer hk₁ hk (fun i hi => (agree i hi).symm) hs'
    exact ⟨u', hu'⟩

/-- Operations whose footprints do not conflict commute: each order is defined, and both
reach the same state. -/
theorem commute (ext : ∀ {s u : σ}, ctx s = ctx u → (∀ i, get s i = get u i) → s = u)
    (hf : Footprint get ctx f k rf wf) (hg : Footprint get ctx g k rg wg) (hk : ctx s = k)
    (hfg : Disjoint wf rg) (hgf : Disjoint wg rf) (hww : Disjoint wf wg)
    (h₁ : f s = some s₁) (h₂ : g s = some s₂) :
    ∃ s', g s₁ = some s' ∧ f s₂ = some s' := by
  have hk₁ := hf.ctx_eq hk h₁
  have hk₂ := hg.ctx_eq hk h₂
  obtain ⟨u, hu, hug⟩ := hg.transfer hk hk₁
    (fun i hi => hf.frame hk h₁ i fun hw => Set.disjoint_left.mp hfg hw hi) h₂
  obtain ⟨v, hv, hvf⟩ := hf.transfer hk hk₂
    (fun i hi => hg.frame hk h₂ i fun hw => Set.disjoint_left.mp hgf hw hi) h₁
  refine ⟨u, hu, ?_⟩
  rw [hv]
  congr 1
  refine ext ((hf.ctx_eq hk₂ hv).trans (hg.ctx_eq hk₁ hu).symm) fun i => ?_
  -- a cell written by one operation has that operation's value in both orders
  by_cases hif : i ∈ wf
  · have hig : i ∉ wg := Set.disjoint_left.mp hww hif
    rw [hvf i hif, hg.frame hk₁ hu i hig]
  · by_cases hig : i ∈ wg
    · rw [hf.frame hk₂ hv i hif, hug i hig]
    · rw [hf.frame hk₂ hv i hif, hg.frame hk h₂ i hig, hg.frame hk₁ hu i hig,
        hf.frame hk h₁ i hif]

end Footprint

end McMini.Foundation
