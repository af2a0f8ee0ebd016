import McMini.Foundation.InjectiveFunction
import McMini.Foundation.Ownership

/-!
# Singly linked lists in a heap

A list in the heap is a chain of cells, each with the address of the next one. `Chain heap p
nodes q` says that the pointer `p` leads over the `nodes`, given with their addresses, to the
pointer `q`; a list which ends is a chain to the null pointer.

A chain splits where the list of its nodes does (`chain_append`), and a change of the heap at an
address which is not one of them leaves it alone (`Chain.insert`, `Chain.erase`). Appending a cell
behind the last node (`Chain.append_cell`), changing what a cell contains (`Chain.set`) and taking
a cell out (`Chain.unlink`) follow from the two.
-/

namespace McMini.Foundation

/-- A cell of a singly linked list. -/
structure Cell (α : Type) where
  content : α
  next : Option ℕ
  deriving DecidableEq, Repr

/-- The pointer `p` leads over the nodes to the pointer `q`. -/
def Chain {α : Type} (heap : Heap (Cell α)) : Option ℕ → List (ℕ × α) → Option ℕ → Prop
  | p, [], q => p = q
  | p, node :: nodes, q =>
    p = some node.1 ∧ ∃ next, heap.lookup node.1 = some ⟨node.2, next⟩ ∧ Chain heap next nodes q

variable {α : Type} {heap heap' : Heap (Cell α)} {p q : Option ℕ} {nodes before after : List (ℕ × α)}
  {a b : ℕ} {x y : α}

theorem chain_append : Chain heap p (before ++ after) q ↔
    ∃ r, Chain heap p before r ∧ Chain heap r after q := by
  induction before generalizing p with
  | nil => simp [Chain]
  | cons node before ih =>
    rw [List.cons_append, Chain]
    simp only [ih, Chain]
    constructor
    · rintro ⟨hp, next, hnext, r, hbefore, hafter⟩
      exact ⟨r, ⟨hp, next, hnext, hbefore⟩, hafter⟩
    · rintro ⟨r, ⟨hp, next, hnext, hbefore⟩, hafter⟩
      exact ⟨hp, next, hnext, r, hbefore, hafter⟩

theorem chain_concat : Chain heap p (before ++ [(a, x)]) q ↔
    Chain heap p before (some a) ∧ heap.lookup a = some ⟨x, q⟩ := by
  rw [chain_append]
  constructor
  · rintro ⟨r, hbefore, rfl, next, hnext, rfl⟩
    exact ⟨hbefore, hnext⟩
  · rintro ⟨hbefore, ha⟩
    exact ⟨some a, hbefore, rfl, q, ha, rfl⟩

/-- The chain of a node in the middle. -/
theorem chain_middle : Chain heap p (before ++ (a, x) :: after) q ↔
    Chain heap p before (some a) ∧
      ∃ next, heap.lookup a = some ⟨x, next⟩ ∧ Chain heap next after q := by
  rw [chain_append]
  constructor
  · rintro ⟨r, hbefore, rfl, hafter⟩
    exact ⟨hbefore, hafter⟩
  · rintro ⟨hbefore, hafter⟩
    exact ⟨some a, hbefore, rfl, hafter⟩

/-- A chain depends on the cells of its nodes only. -/
theorem Chain.congr (h : Chain heap p nodes q)
    (hsame : ∀ b ∈ nodes.map Prod.fst, heap'.lookup b = heap.lookup b) : Chain heap' p nodes q := by
  induction nodes generalizing p with
  | nil => exact h
  | cons node nodes ih =>
    obtain ⟨hp, next, hnext, hnodes⟩ := h
    refine ⟨hp, next, ?_, ih hnodes fun b hb => hsame b (List.mem_cons_of_mem _ hb)⟩
    rw [hsame node.1 List.mem_cons_self, hnext]

theorem Chain.insert (h : Chain heap p nodes q) (ha : a ∉ nodes.map Prod.fst) (cell : Cell α) :
    Chain (heap.insert a cell) p nodes q := by
  refine h.congr fun b hb => ?_
  rw [lookup_insert, if_neg]
  rintro rfl
  exact ha hb

theorem Chain.erase (h : Chain heap p nodes q) (ha : a ∉ nodes.map Prod.fst) :
    Chain (heap.erase a) p nodes q := by
  refine h.congr fun b hb => Finmap.lookup_erase_ne ?_
  rintro rfl
  exact ha hb

/-- The pointer to a list which ends is to its first node. -/
theorem Chain.eq_head (h : Chain heap p nodes none) : p = nodes.head?.map Prod.fst := by
  cases nodes with
  | nil => exact h
  | cons node nodes => exact h.1

/-- A new cell behind the last node. -/
theorem Chain.append_cell {next : Option ℕ} (h : Chain heap p (before ++ [(b, y)]) next)
    (hb : b ∉ before.map Prod.fst) (ha : a ∉ (before ++ [(b, y)]).map Prod.fst) :
    Chain ((heap.insert a ⟨x, q⟩).insert b ⟨y, some a⟩) p (before ++ [(b, y)] ++ [(a, x)]) q := by
  obtain ⟨hbefore, -⟩ := chain_concat.mp h
  rw [List.map_append, List.mem_append, not_or] at ha
  have hab : a ≠ b := fun heq => ha.2 (List.mem_singleton.mpr heq)
  refine chain_concat.mpr ⟨chain_concat.mpr ⟨(hbefore.insert ha.1 _).insert hb _, ?_⟩, ?_⟩
  · rw [lookup_insert, if_pos rfl]
  · rw [lookup_insert, if_neg hab.symm, lookup_insert, if_pos rfl]

/-- Another content for a node. -/
theorem Chain.set {next : Option ℕ} (h : Chain heap p (before ++ (a, x) :: after) q)
    (hnodup : ((before ++ (a, x) :: after).map Prod.fst).Nodup)
    (ha : heap.lookup a = some ⟨x, next⟩) :
    Chain (heap.insert a ⟨y, next⟩) p (before ++ (a, y) :: after) q := by
  obtain ⟨hbefore, next', ha', hafter⟩ := chain_middle.mp h
  obtain rfl : next = next' := (Cell.mk.inj (Option.some.inj (ha.symm.trans ha'))).2
  rw [List.map_append, List.map_cons, List.nodup_middle, List.nodup_cons, List.mem_append,
    not_or] at hnodup
  refine chain_middle.mpr ⟨hbefore.insert hnodup.1.1 _, next, ?_, hafter.insert hnodup.1.2 _⟩
  rw [lookup_insert, if_pos rfl]

/-- A node is taken out by letting the one before it point behind it. -/
theorem Chain.unlink {next : Option ℕ} (h : Chain heap p (before ++ (b, y) :: (a, x) :: after) q)
    (hnodup : ((before ++ (b, y) :: (a, x) :: after).map Prod.fst).Nodup)
    (ha : heap.lookup a = some ⟨x, next⟩) :
    Chain ((heap.insert b ⟨y, next⟩).erase a) p (before ++ (b, y) :: after) q := by
  obtain ⟨hbefore, next', -, rfl, next'', ha', hafter⟩ := chain_middle.mp h
  obtain rfl : next = next'' := (Cell.mk.inj (Option.some.inj (ha.symm.trans ha'))).2
  simp only [List.map_append, List.map_cons, List.nodup_append, List.nodup_cons, List.mem_cons,
    not_or] at hnodup
  obtain ⟨-, ⟨⟨hba, hbafter⟩, haafter, -⟩, hdisjoint⟩ := hnodup
  have hbbefore : b ∉ before.map Prod.fst := fun hmem => hdisjoint b hmem b (.inl rfl) rfl
  have habefore : a ∉ before.map Prod.fst := fun hmem => hdisjoint a hmem a (.inr (.inl rfl)) rfl
  refine chain_middle.mpr ⟨(hbefore.insert hbbefore _).erase habefore, next, ?_,
    (hafter.insert hbafter _).erase haafter⟩
  rw [Finmap.lookup_erase_ne hba, lookup_insert, if_pos rfl]

end McMini.Foundation
