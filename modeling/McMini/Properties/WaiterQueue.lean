import McMini.Record.LinkedQueue

/-!
# The queue in memory is the queue

`Represents queue nodes` says that the queue in memory is made of these nodes, in this order: its
front leads over them to the null pointer, its rear is the last of them, its counter is their
number, and nothing else is allocated. `Op.spec` is what a call should make of the nodes, so far
as its preconditions hold: an addition at the end, the removal of the first node of a thread or of
the first which is waiting, another state for the first node of a thread, or nothing.

**The deviations.** A counter which is not 0 at the start is never right. `dequeue_thread` loses a
node in front which is not waiting. And the counter overflows at the length `2 ^ 31`. Where none of
this happens the queue in memory behaves as the list (`behaves_iff`), and holds what the wrappers
are taken to have recorded (`exists_contents_of_harmless`).
-/

namespace McMini.Record.LinkedQueue

open Foundation

/-- The nodes of a queue with their addresses, from the front. -/
abbrev Placed := List (ℕ × ThreadQueueNode)

/-- The queue without the addresses. -/
def Placed.contents (nodes : Placed) : ThreadQueue := nodes.map Prod.snd

/-- What a call should make of the nodes, where it respects the preconditions: it does not take
from or peek into an empty queue or ask for a thread which is not in it, and `malloc` returns
what is free. -/
def Op.spec : Op → Placed → Option Placed
  | .enqueueThread thread cvState (some node), nodes =>
    if node ∈ nodes.map Prod.fst then none else some (nodes ++ [(node, ⟨thread, cvState⟩)])
  | .enqueueThread _ _ none, _ => none
  | .dequeueThread, nodes =>
    if nodes = [] then none else some (nodes.eraseP (·.2.threadCvState = .waiting))
  | .peekThread, nodes => if nodes = [] then none else some nodes
  | .getThreadCvState thread, nodes =>
    if thread ∈ nodes.contents.threads then some nodes else none
  | .updateThreadCvState thread newState, nodes =>
    if thread ∈ nodes.contents.threads then
      some (nodes.modify (nodes.findIdx (·.2.thread = thread)) fun node =>
        (node.1, { node.2 with threadCvState := newState }))
    else none
  | .removeThreadFromQueue tid, nodes => some (nodes.eraseP (·.2.thread = tid))
  | .isInThreadQueue _, nodes => some nodes
  | .isQueueEmpty, nodes => some nodes
  | .printThreadQueue, nodes => some nodes
  | .getWaitingThreadNode, nodes => some nodes

/-- What a call should return. -/
def Op.result : Op → ThreadQueue → Result
  | .enqueueThread _ _ _, _ => .nothing
  | .dequeueThread, nodes => .runner nodes.getWaitingThreadNode
  | .peekThread, nodes => .runner ((nodes.head?.map (·.thread)).getD ridInvalid)
  | .isInThreadQueue thread, nodes => .bool (nodes.isInThreadQueue thread)
  | .isQueueEmpty, nodes => .bool nodes.isEmpty
  | .printThreadQueue, nodes =>
    .printed (if nodes = [] then none else some (BitVec.ofNat 32 nodes.length, nodes))
  | .getThreadCvState thread, nodes =>
    .status ((nodes.getThreadCvState thread).getD .uninitialized)
  | .updateThreadCvState _ _, _ => .nothing
  | .getWaitingThreadNode, nodes => .runner nodes.getWaitingThreadNode
  | .removeThreadFromQueue tid, nodes => .int (if nodes.isInThreadQueue tid then 0 else -1)

/-- The queue in memory is made of the nodes. -/
structure Represents (queue : LinkedQueue) (nodes : Placed) : Prop where
  chain : Chain queue.nodes queue.front nodes none
  nodup : (nodes.map Prod.fst).Nodup
  rear_eq : queue.rear = nodes.getLast?.map Prod.fst
  size_eq : queue.size.toInt = nodes.length
  mem_nodes : ∀ a, a ∈ queue.nodes ↔ a ∈ nodes.map Prod.fst

/-- The call does not run into one of the deviations. -/
def Op.Harmless (nodes : Placed) : Op → Prop
  | .enqueueThread _ _ _ => nodes.length + 1 < 2 ^ 31
  | .dequeueThread => ∀ node ∈ nodes.head?, node.2.threadCvState = .waiting
  | _ => True

variable {queue queue' : LinkedQueue} {nodes nodes' before after : Placed} {a b : ℕ}
  {x y : ThreadQueueNode} {p : Option ℕ}

/-! ### What the specification does to the list -/

/-- A call does to the contents what it does to a recorded queue. -/
def Op.onContents : Op → ThreadQueue → ThreadQueue
  | .enqueueThread thread cvState _, queue => queue.enqueueThread thread cvState
  | .dequeueThread, queue => queue.eraseP (·.threadCvState = .waiting)
  | .updateThreadCvState thread newState, queue => queue.updateThreadCvState thread newState
  | .removeThreadFromQueue tid, queue => queue.removeThreadFromQueue tid
  | _, queue => queue

theorem contents_eraseP (test : ThreadQueueNode → Bool) (nodes : Placed) :
    Placed.contents (nodes.eraseP (fun node => test node.2)) = nodes.contents.eraseP test := by
  rw [Placed.contents, Placed.contents, List.eraseP_map]
  rfl

theorem contents_modify {thread : RunnerId} {newState : ConditionVariableStatus} (nodes : Placed) :
    Placed.contents (nodes.modify (nodes.findIdx (·.2.thread = thread)) fun node =>
        (node.1, { node.2 with threadCvState := newState })) =
      nodes.contents.updateThreadCvState thread newState := by
  induction nodes with
  | nil => rfl
  | cons node nodes ih =>
    by_cases h : node.2.thread = thread
    · simp [Placed.contents, ThreadQueue.updateThreadCvState, List.findIdx_cons, h]
    · simp only [Placed.contents, ThreadQueue.updateThreadCvState, List.findIdx_cons, h,
        decide_false, cond_false, List.map_cons, List.modify_succ_cons] at ih ⊢
      rw [ih]

/-- The specification is that of the recorded queues. -/
theorem contents_spec {op : Op} (h : op.spec nodes = some nodes') :
    nodes'.contents = op.onContents nodes.contents := by
  cases op with
  | enqueueThread thread cvState malloc =>
    cases malloc with
    | none => cases h
    | some node =>
      rw [Op.spec] at h
      split_ifs at h
      rw [← Option.some.inj h, Placed.contents, List.map_append]
      rfl
  | dequeueThread =>
    rw [Op.spec] at h
    split_ifs at h
    rw [← Option.some.inj h]
    exact contents_eraseP (fun node => node.threadCvState = .waiting) nodes
  | updateThreadCvState thread newState =>
    rw [Op.spec] at h
    split_ifs at h
    rw [← Option.some.inj h]
    exact contents_modify nodes
  | removeThreadFromQueue tid =>
    rw [← Option.some.inj h]
    exact contents_eraseP (fun node => node.thread = tid) nodes
  | peekThread =>
    rw [Op.spec] at h
    split_ifs at h
    rw [← Option.some.inj h]
    rfl
  | getThreadCvState thread =>
    rw [Op.spec] at h
    split_ifs at h
    rw [← Option.some.inj h]
    rfl
  | isInThreadQueue thread => exact Option.some.inj h ▸ rfl
  | isQueueEmpty => exact Option.some.inj h ▸ rfl
  | printThreadQueue => exact Option.some.inj h ▸ rfl
  | getWaitingThreadNode => exact Option.some.inj h ▸ rfl

/-! ### The counter -/

theorem toInt_add_one {size : BitVec 32} {n : ℕ} (h : size.toInt = n) (hn : n + 1 < 2 ^ 31) :
    (size + 1).toInt = (n + 1 : ℕ) := by
  rw [BitVec.toInt_add, h]
  have hone : (1 : BitVec 32).toInt = 1 := by decide
  rw [hone, Int.bmod_eq_of_le (by omega) (by omega)]
  push_cast
  rfl

theorem toInt_sub_one {size : BitVec 32} {n : ℕ} (h : size.toInt = (n + 1 : ℕ)) :
    (size - 1).toInt = n := by
  have hlt := BitVec.toInt_lt (x := size)
  have hone : (1 : BitVec 32).toInt = 1 := by decide
  rw [BitVec.toInt_sub, h, hone, Int.bmod_eq_of_le (by omega) (by omega)]
  push_cast
  omega

/-- At the length `2 ^ 31` there is no right value of the counter. -/
theorem toInt_ne_of_le {size : BitVec 32} {n : ℕ} (hn : 2 ^ 31 ≤ n) : size.toInt ≠ n := by
  have hlt := BitVec.toInt_lt (x := size)
  omega

/-! ### Reading a queue which is represented -/

theorem read_eq_ok {cell : Cell ThreadQueueNode} (h : queue.nodes.lookup a = some cell) :
    queue.read a = .ok cell := by
  rw [read, h]

/-- The cell of a node. -/
theorem Represents.lookup (h : Represents queue (before ++ (a, x) :: after)) :
    ∃ next, queue.nodes.lookup a = some ⟨x, next⟩ := by
  obtain ⟨-, next, hnext, -⟩ := chain_middle.mp h.chain
  exact ⟨next, hnext⟩

theorem Represents.length_lt_fuel (h : Represents queue nodes) : nodes.length < queue.fuel := by
  have hsub : (nodes.map Prod.fst).toFinset ⊆ queue.nodes.keys := by
    intro c hc
    exact Finmap.mem_keys.mpr ((h.mem_nodes c).mpr (List.mem_toFinset.mp hc))
  have hcard := Finset.card_le_card hsub
  rw [List.toFinset_card_of_nodup h.nodup, List.length_map] at hcard
  exact Nat.lt_succ_of_le hcard

theorem findNode_eq (test : ThreadQueueNode → Bool) {rounds : ℕ}
    (h : Chain queue.nodes p nodes none) (hrounds : nodes.length < rounds) :
    queue.findNode test rounds p =
      .ok ((nodes.find? fun node => test node.2).map Prod.fst) := by
  induction nodes generalizing p rounds with
  | nil =>
    obtain ⟨rounds, rfl⟩ := Nat.exists_eq_add_one_of_ne_zero hrounds.ne'
    obtain rfl : p = none := h
    rfl
  | cons node nodes ih =>
    obtain ⟨rounds, rfl⟩ := Nat.exists_eq_add_one_of_ne_zero (Nat.ne_zero_of_lt hrounds)
    obtain ⟨rfl, next, hnext, hchain⟩ := h
    rw [findNode, read_eq_ok hnext, List.find?_cons]
    change (if test node.2 then _ else _) = _
    by_cases htest : test node.2 = true
    · rw [if_pos htest, htest]
      rfl
    · rw [if_neg htest, ih hchain (Nat.lt_of_succ_lt_succ hrounds), Bool.eq_false_iff.mpr htest]

theorem printLoop_eq {rounds : ℕ} (h : Chain queue.nodes p nodes none)
    (hrounds : nodes.length < rounds) : queue.printLoop rounds p = .ok nodes.contents := by
  induction nodes generalizing p rounds with
  | nil =>
    obtain ⟨rounds, rfl⟩ := Nat.exists_eq_add_one_of_ne_zero hrounds.ne'
    obtain rfl : p = none := h
    rfl
  | cons node nodes ih =>
    obtain ⟨rounds, rfl⟩ := Nat.exists_eq_add_one_of_ne_zero (Nat.ne_zero_of_lt hrounds)
    obtain ⟨rfl, next, hnext, hchain⟩ := h
    rw [printLoop, read_eq_ok hnext]
    change (queue.printLoop rounds next >>= fun rest => .ok (node.2 :: rest)) = _
    rw [ih hchain (Nat.lt_of_succ_lt_succ hrounds)]
    rfl

theorem Represents.front_eq_none_iff (h : Represents queue nodes) :
    queue.front = none ↔ nodes = [] := by
  rw [h.chain.eq_head, Option.map_eq_none_iff, List.head?_eq_none_iff]

/-- The first node with the property, if there is one. -/
theorem Represents.findNode (h : Represents queue nodes) (test : ThreadQueueNode → Bool) :
    queue.findNode test queue.fuel queue.front = .ok none ∧ (∀ node ∈ nodes, ¬ test node.2) ∨
      ∃ before a x after, nodes = before ++ (a, x) :: after ∧ test x ∧
        (∀ node ∈ before, ¬ test node.2) ∧
          queue.findNode test queue.fuel queue.front = .ok (some a) := by
  rw [findNode_eq test h.chain h.length_lt_fuel]
  cases hfind : nodes.find? fun node => test node.2 with
  | none => exact .inl ⟨rfl, List.find?_eq_none.mp hfind⟩
  | some node =>
    obtain ⟨htest, before, after, heq, hbefore⟩ := List.find?_eq_some_iff_append.mp hfind
    refine .inr ⟨before, node.1, node.2, after, heq, htest, ?_, rfl⟩
    exact fun other hother => by simpa using hbefore other hother

/-! ### Removing a node -/

/-- What is left after the removal of a node, where the pointers are right again. -/
theorem Represents.removed (h : Represents queue (before ++ (a, x) :: after))
    {heap : Heap (Cell ThreadQueueNode)} {front rear : Option ℕ}
    (hchain : Chain heap front (before ++ after) none)
    (hrear : rear = (before ++ after).getLast?.map Prod.fst)
    (hmem : ∀ c, c ∈ heap ↔ c ≠ a ∧ c ∈ queue.nodes) :
    Represents ⟨heap, front, rear, queue.size - 1⟩ (before ++ after) where
  chain := hchain
  nodup := by
    refine h.nodup.sublist (List.Sublist.map _ ?_)
    exact (List.Sublist.refl before).append (List.sublist_cons_self _ _)
  rear_eq := hrear
  size_eq := by
    refine toInt_sub_one ?_
    rw [h.size_eq, List.length_append, List.length_append, List.length_cons, Nat.add_assoc]
  mem_nodes := by
    intro c
    have hnodup := h.nodup
    rw [List.map_append, List.map_cons, List.nodup_middle, List.nodup_cons] at hnodup
    rw [hmem, h.mem_nodes, List.map_append, List.map_append, List.map_cons, List.mem_append,
      List.mem_cons, List.mem_append]
    constructor
    · rintro ⟨hca, hbefore | rfl | hafter⟩
      · exact .inl hbefore
      · exact absurd rfl hca
      · exact .inr hafter
    · intro hc
      refine ⟨fun heq => hnodup.1 ?_, hc.imp_right .inr⟩
      rw [← heq]
      exact List.mem_append.mpr hc

/-- The removal of the node in front. -/
theorem Represents.freeFront (h : Represents queue ((a, x) :: after)) {next : Option ℕ}
    (hnext : queue.nodes.lookup a = some ⟨x, next⟩) :
    Represents (queue.freeFront a ⟨x, next⟩) after := by
  obtain ⟨-, next', hnext', hchain⟩ := h.chain
  obtain rfl : next = next' := (Cell.mk.inj (Option.some.inj (hnext.symm.trans hnext'))).2
  have hnodup := h.nodup
  rw [List.map_cons, List.nodup_cons] at hnodup
  have hrear : (if next = none then none else queue.rear) = after.getLast?.map Prod.fst := by
    have hhead := hchain.eq_head
    cases after with
    | nil => exact if_pos hhead
    | cons node after =>
      rw [if_neg (by rw [hhead]; exact Option.some_ne_none _), h.rear_eq, List.getLast?_cons_cons]
  have hremoved : Represents (queue.freeFront a ⟨x, next⟩) ([] ++ after) :=
    Represents.removed h (hchain.erase hnodup.1) hrear fun c => Finmap.mem_erase
  exact hremoved

/-- The loop finds nothing behind the current node. -/
theorem removeLoop_of_forall_ne {tid : RunnerId} {rounds : ℕ}
    (hchain : Chain queue.nodes (some b) ((b, y) :: nodes) none) (hrounds : nodes.length < rounds)
    (hne : ∀ node ∈ nodes, node.2.thread ≠ tid) :
    queue.removeLoop tid rounds b = .ok (-1, queue) := by
  induction nodes generalizing b y rounds with
  | nil =>
    obtain ⟨rounds, rfl⟩ := Nat.exists_eq_add_one_of_ne_zero hrounds.ne'
    obtain ⟨-, next, hnext, hnone⟩ := hchain
    obtain rfl : next = none := hnone
    rw [removeLoop, read_eq_ok hnext]
    rfl
  | cons node nodes ih =>
    obtain ⟨rounds, rfl⟩ := Nat.exists_eq_add_one_of_ne_zero (Nat.ne_zero_of_lt hrounds)
    obtain ⟨-, next, hnext, hrest⟩ := hchain
    obtain ⟨rfl, next', hnext', -⟩ := id hrest
    have hskip : ¬ node.2.thread = tid := hne node List.mem_cons_self
    rw [removeLoop, read_eq_ok hnext]
    change (queue.read node.1 >>= fun removed => if removed.content.thread = tid then _ else _) = _
    rw [read_eq_ok hnext']
    change (if node.2.thread = tid then _ else _) = _
    rw [if_neg hskip]
    exact ih hrest (Nat.lt_of_succ_lt_succ hrounds) fun other hother =>
      hne other (List.mem_cons_of_mem _ hother)

/-- The loop takes out the first node of the thread behind the current one. -/
theorem removeLoop_of_found {tid : RunnerId} {rounds : ℕ} {between front : Placed} {c : ℕ}
    {z : ThreadQueueNode} {next : Option ℕ}
    (hchain : Chain queue.nodes (some b) ((b, y) :: between) (some a))
    (hrounds : between.length < rounds) (hne : ∀ node ∈ between, node.2.thread ≠ tid)
    (hnext : queue.nodes.lookup a = some ⟨x, next⟩) (hx : x.thread = tid)
    (hlast : (b, y) :: between = front ++ [(c, z)]) :
    queue.removeLoop tid rounds b = .ok (0, ⟨(queue.nodes.insert c ⟨z, next⟩).erase a, queue.front,
      if some a = queue.rear then some c else queue.rear, queue.size - 1⟩) := by
  induction between generalizing b y rounds front with
  | nil =>
    obtain ⟨rounds, rfl⟩ := Nat.exists_eq_add_one_of_ne_zero hrounds.ne'
    obtain ⟨-, next', hnext', ha⟩ := hchain
    obtain rfl : next' = some a := ha
    have hlast' : [] ++ [(b, y)] = front ++ [(c, z)] := hlast
    obtain ⟨rfl, hcz⟩ := List.append_inj' hlast' rfl
    obtain ⟨rfl, rfl⟩ := Prod.mk.inj (List.singleton_inj.mp hcz)
    rw [removeLoop, read_eq_ok hnext']
    change (queue.read a >>= fun removed => if removed.content.thread = tid then _ else _) = _
    rw [read_eq_ok hnext]
    exact if_pos hx
  | cons node between ih =>
    obtain ⟨rounds, rfl⟩ := Nat.exists_eq_add_one_of_ne_zero (Nat.ne_zero_of_lt hrounds)
    obtain ⟨-, next', hnext', hrest⟩ := hchain
    obtain ⟨rfl, next'', hnext'', -⟩ := id hrest
    have hskip : ¬ node.2.thread = tid := hne node List.mem_cons_self
    rw [removeLoop, read_eq_ok hnext']
    change (queue.read node.1 >>= fun removed => if removed.content.thread = tid then _ else _) = _
    rw [read_eq_ok hnext'']
    change (if node.2.thread = tid then _ else _) = _
    rw [if_neg hskip]
    cases front with
    | nil => cases hlast
    | cons first front =>
      exact ih hrest (Nat.lt_of_succ_lt_succ hrounds)
        (fun other hother => hne other (List.mem_cons_of_mem _ hother))
        (List.cons.inj hlast).2

theorem read_front (h : Represents queue ((a, x) :: after)) :
    queue.front = some a ∧ ∃ next, queue.nodes.lookup a = some ⟨x, next⟩ ∧
      Chain queue.nodes next after none := h.chain

/-- The rear after the removal of a node which is not the front one. -/
theorem Represents.rear_removed (h : Represents queue (before ++ (b, y) :: (a, x) :: after)) :
    (if some a = queue.rear then some b else queue.rear) =
      (before ++ (b, y) :: after).getLast?.map Prod.fst := by
  have hsplit : before ++ (b, y) :: (a, x) :: after = before ++ [(b, y)] ++ (a, x) :: after := by
    simp
  have hnodup := h.nodup
  rw [hsplit, List.map_append, List.map_cons, List.nodup_middle, List.nodup_cons, List.mem_append,
    not_or] at hnodup
  cases after using List.reverseRecOn with
  | nil =>
    rw [if_pos (by rw [h.rear_eq, hsplit, List.getLast?_concat]; rfl), List.getLast?_concat]
    rfl
  | append_singleton after last =>
    have hlast : queue.rear = some last.1 := by
      rw [h.rear_eq, hsplit, ← List.cons_append, ← List.append_assoc, List.getLast?_concat]
      rfl
    have hne : a ≠ last.1 := by
      rintro rfl
      refine hnodup.1.2 ?_
      rw [List.map_append]
      exact List.mem_append_right _ List.mem_cons_self
    rw [hlast, if_neg fun heq => hne (Option.some.inj heq), ← List.cons_append,
      ← List.append_assoc, List.getLast?_concat]
    rfl

/-- The removal of a node which is not the front one. -/
theorem Represents.unlinked (h : Represents queue (before ++ (b, y) :: (a, x) :: after))
    {next : Option ℕ} (hnext : queue.nodes.lookup a = some ⟨x, next⟩) :
    Represents ⟨(queue.nodes.insert b ⟨y, next⟩).erase a, queue.front,
      if some a = queue.rear then some b else queue.rear, queue.size - 1⟩
      (before ++ (b, y) :: after) := by
  have hsplit : before ++ (b, y) :: (a, x) :: after = before ++ [(b, y)] ++ (a, x) :: after := by
    simp
  have hsplit' : before ++ (b, y) :: after = before ++ [(b, y)] ++ after := by simp
  have hb : b ∈ queue.nodes := by
    rw [h.mem_nodes]
    exact List.mem_map_of_mem (f := Prod.fst) (List.mem_append_right before List.mem_cons_self)
  have hchain := h.chain.unlink h.nodup hnext
  have hrear := h.rear_removed
  rw [hsplit] at h
  rw [hsplit'] at hchain hrear ⊢
  refine h.removed hchain hrear fun c => ?_
  rw [Finmap.mem_erase, Finmap.mem_insert, or_iff_right_of_imp (fun hcb => hcb ▸ hb)]

/-- The removal of the first node of a thread behind the front one. -/
theorem removeLoop_eq {tid : RunnerId} {next : Option ℕ}
    (h : Represents queue ((b, y) :: before ++ (a, x) :: after))
    (hne : ∀ node ∈ before, node.2.thread ≠ tid) (hx : x.thread = tid)
    (hnext : queue.nodes.lookup a = some ⟨x, next⟩) :
    ∃ queue', queue.removeLoop tid queue.fuel b = .ok (0, queue') ∧
      Represents queue' ((b, y) :: before ++ after) := by
  obtain ⟨front, ⟨c, z⟩, hlast⟩ : ∃ front last, (b, y) :: before = front ++ [last] :=
    ⟨_, _, (List.dropLast_append_getLast (List.cons_ne_nil _ _)).symm⟩
  have hfront : queue.front = some b := h.chain.1
  have hsegment : Chain queue.nodes (some b) ((b, y) :: before) (some a) :=
    (chain_middle.mp (hfront ▸ h.chain)).1
  have hshort : before.length < queue.fuel := by
    have hlength := h.length_lt_fuel
    rw [List.length_append, List.length_cons] at hlength
    omega
  refine ⟨_, removeLoop_of_found hsegment hshort hne hnext hx hlast, ?_⟩
  rw [hlast, List.append_assoc, List.singleton_append] at h ⊢
  exact h.unlinked hnext

theorem removeThreadFromQueue_eq (h : Represents queue nodes) (tid : RunnerId) :
    ∃ queue', queue.removeThreadFromQueue tid =
        .ok (if nodes.contents.isInThreadQueue tid then 0 else -1, queue') ∧
      Represents queue' (nodes.eraseP (·.2.thread = tid)) := by
  cases nodes with
  | nil =>
    have hfront : queue.front = none := h.front_eq_none_iff.mpr rfl
    refine ⟨queue, ?_, h⟩
    rw [removeThreadFromQueue, hfront]
    rfl
  | cons node nodes =>
    obtain ⟨a, x⟩ := node
    obtain ⟨hfront, next, hnext, hchain⟩ := read_front h
    have hrun : queue.removeThreadFromQueue tid =
        if x.thread = tid then .ok (0, queue.freeFront a ⟨x, next⟩)
        else queue.removeLoop tid queue.fuel a := by
      rw [removeThreadFromQueue, hfront]
      change (queue.read a >>= fun cell => if cell.content.thread = tid then _ else _) = _
      rw [read_eq_ok hnext]
      rfl
    -- the first node is freed as by `dequeue_thread`, the others are searched by the loop
    by_cases hx : x.thread = tid
    · refine ⟨queue.freeFront a ⟨x, next⟩, ?_, ?_⟩
      · rw [hrun, if_pos hx, if_pos]
        exact ThreadQueue.isInThreadQueue_iff.mpr (List.mem_cons.mpr (.inl hx.symm))
      · rw [List.eraseP_cons_of_pos (by simpa using hx)]
        exact h.freeFront hnext
    · have hfuel : nodes.length < queue.fuel :=
        (Nat.lt_succ_self _).trans h.length_lt_fuel
      rw [hrun, if_neg hx, List.eraseP_cons_of_neg (by simpa using hx)]
      cases hfind : nodes.find? (·.2.thread = tid) with
      | none =>
        -- the loop runs to the end of the list
        have hne : ∀ node ∈ nodes, node.2.thread ≠ tid := by
          intro node hnode
          simpa using List.find?_eq_none.mp hfind node hnode
        refine ⟨queue, ?_, ?_⟩
        · rw [removeLoop_of_forall_ne (hfront ▸ h.chain) hfuel hne, if_neg]
          rw [ThreadQueue.isInThreadQueue_iff]
          simpa [ThreadQueue.threads, Placed.contents, Ne.symm hx, eq_comm] using hne
        · rwa [List.eraseP_of_forall_not (by simpa using hne)]
      | some node =>
        obtain ⟨hthread, between, after, rfl, hbetween⟩ := List.find?_eq_some_iff_append.mp hfind
        obtain ⟨c, w⟩ := node
        have hne : ∀ node ∈ between, node.2.thread ≠ tid := by
          intro node hnode
          simpa using hbetween node hnode
        have hw : w.thread = tid := by simpa using hthread
        -- it stops at the first node of the thread, and unlinks it from the one before
        rw [← List.cons_append] at h
        obtain ⟨next', hnext'⟩ := h.lookup
        obtain ⟨queue', hloop, hqueue'⟩ := removeLoop_eq h hne hw hnext'
        refine ⟨queue', ?_, ?_⟩
        · rw [hloop, if_pos]
          refine ThreadQueue.isInThreadQueue_iff.mpr (ThreadQueue.mem_threads.mpr ⟨w, ?_, hw⟩)
          simp [Placed.contents]
        · rw [List.eraseP_append_right _ (by simpa using hne),
            List.eraseP_cons_of_pos (by simpa using hw)]
          exact hqueue'

/-! ### The other calls -/

/-- The queue which an addition leads to, whether the counter has overflowed or not. -/
theorem enqueueThread_eq (h : Represents queue nodes) (ha : a ∉ nodes.map Prod.fst)
    (thread : RunnerId) (cvState : ConditionVariableStatus) :
    ∃ heap front rear, queue.enqueueThread thread cvState (some a) =
        .ok ⟨heap, front, rear, queue.size + 1⟩ ∧
      (nodes.length + 1 < 2 ^ 31 →
        Represents ⟨heap, front, rear, queue.size + 1⟩ (nodes ++ [(a, ⟨thread, cvState⟩)])) := by
  have hnodup : ((nodes ++ [(a, (⟨thread, cvState⟩ : ThreadQueueNode))]).map Prod.fst).Nodup := by
    rw [List.map_append, List.map_singleton, ← List.concat_eq_append, List.nodup_concat]
    exact ⟨ha, h.nodup⟩
  have hrear : ∀ nodes : Placed, ((nodes ++ [(a, (⟨thread, cvState⟩ : ThreadQueueNode))]).getLast?).map
      Prod.fst = some a := by
    intro nodes
    rw [List.getLast?_concat]
    rfl
  have hsize : nodes.length + 1 < 2 ^ 31 → (queue.size + 1).toInt =
      (nodes ++ [(a, (⟨thread, cvState⟩ : ThreadQueueNode))]).length := by
    intro hlength
    rw [List.length_append, List.length_singleton]
    exact toInt_add_one h.size_eq hlength
  cases nodes using List.reverseRecOn with
  | nil =>
    -- an empty list: the new node is the front as well
    have hnone : queue.rear = none := h.rear_eq
    refine ⟨queue.nodes.insert a ⟨⟨thread, cvState⟩, none⟩, some a, some a, ?_, fun hlength => ?_⟩
    · rw [enqueueThread, createThreadQueueNode, hnone]
      rfl
    · refine ⟨⟨rfl, none, ?_, rfl⟩, hnodup, rfl, hsize hlength, fun c => ?_⟩
      · rw [lookup_insert, if_pos rfl]
      · rw [Finmap.mem_insert, h.mem_nodes]
        simp
  | append_singleton nodes last =>
    obtain ⟨b, y⟩ := last
    obtain ⟨hchain, hb⟩ := chain_concat.mp h.chain
    -- otherwise the node at the rear is linked with the new one
    have hab : a ≠ b := by
      rintro rfl
      exact ha (by simp)
    have hbnodes : b ∉ nodes.map Prod.fst := by
      have hnodup := h.nodup
      rw [List.map_append, List.map_singleton, ← List.concat_eq_append, List.nodup_concat] at hnodup
      exact hnodup.1
    have hsome : queue.rear = some b := by rw [h.rear_eq, List.getLast?_concat]; rfl
    have hread : ∀ x, read ⟨queue.nodes.insert a x, queue.front, queue.rear, queue.size⟩ b =
        .ok ⟨y, none⟩ := by
      intro x
      refine read_eq_ok ?_
      rw [lookup_insert, if_neg hab, hb]
    refine ⟨(queue.nodes.insert a ⟨⟨thread, cvState⟩, none⟩).insert b ⟨y, some a⟩, queue.front,
      some a, ?_, fun hlength => ?_⟩
    · rw [enqueueThread, createThreadQueueNode, hsome]
      change (read ⟨queue.nodes.insert a ⟨⟨thread, cvState⟩, none⟩, queue.front, queue.rear,
        queue.size⟩ b >>= fun cell => _) = _
      rw [hread]
      rfl
    · refine ⟨h.chain.append_cell hbnodes ha, hnodup, (hrear _).symm, hsize hlength, fun c => ?_⟩
      rw [Finmap.mem_insert, Finmap.mem_insert, h.mem_nodes]
      simp only [List.map_append, List.mem_append, List.map_cons, List.map_nil, List.mem_singleton]
      tauto

theorem dequeueThread_eq (h : Represents queue ((a, x) :: after))
    (hx : x.threadCvState = .waiting) : ∃ queue',
    queue.dequeueThread = .ok (x.thread, queue') ∧ Represents queue' after := by
  obtain ⟨hfront, next, hnext, -⟩ := read_front h
  refine ⟨queue.freeFront a ⟨x, next⟩, ?_, h.freeFront hnext⟩
  rw [dequeueThread, if_neg (by rw [hfront]; exact Option.some_ne_none a), fuel, dequeueLoop, hfront]
  change (queue.read a >>= fun cell => if cell.content.threadCvState = .waiting then _ else _) = _
  rw [read_eq_ok hnext]
  exact if_pos hx

/-- The loop of `dequeue_thread` leads the front to one of the nodes, or to their end. -/
theorem dequeueLoop_front {rounds : ℕ} {thread : RunnerId}
    (hchain : Chain queue.nodes queue.front nodes none)
    (hrun : dequeueLoop rounds queue = .ok (thread, queue')) (ha : queue'.front = some a) :
    a ∈ nodes.map Prod.fst := by
  induction rounds generalizing queue nodes with
  | zero => cases hrun
  | succ rounds ih =>
    cases nodes with
    | nil =>
      have hfront : queue.front = none := hchain
      rw [dequeueLoop, hfront] at hrun
      obtain ⟨-, rfl⟩ := Prod.mk.inj (Except.ok.inj hrun)
      rw [hfront] at ha
      cases ha
    | cons node nodes =>
      obtain ⟨hfront, next, hnext, hrest⟩ := hchain
      have hstep : dequeueLoop (rounds + 1) queue =
          if node.2.threadCvState = .waiting then
            .ok (node.2.thread, queue.freeFront node.1 ⟨node.2, next⟩)
          else dequeueLoop rounds { queue with front := next } := by
        rw [dequeueLoop, hfront]
        change (queue.read node.1 >>= fun cell =>
          if cell.content.threadCvState = .waiting then _ else _) = _
        rw [read_eq_ok hnext]
        rfl
      rw [hstep] at hrun
      split_ifs at hrun with hwaiting
      · obtain ⟨-, rfl⟩ := Prod.mk.inj (Except.ok.inj hrun)
        have hnextfront : next = some a := ha
        rw [hrest.eq_head] at hnextfront
        obtain ⟨other, hother, rfl⟩ := Option.map_eq_some_iff.mp hnextfront
        rw [List.map_cons]
        exact List.mem_cons_of_mem _ (List.mem_map_of_mem (List.mem_of_mem_head? hother))
      · rw [List.map_cons]
        have hchain' : Chain { queue with front := next }.nodes next nodes none := hrest
        exact List.mem_cons_of_mem _ (ih hchain' hrun)

/-- A node in front which is not waiting is lost. -/
theorem not_represents_dequeueThread {thread : RunnerId} (h : Represents queue ((a, x) :: after))
    (hx : x.threadCvState ≠ .waiting) (hrun : queue.dequeueThread = .ok (thread, queue')) :
    ¬ Represents queue' ((a, x) :: before) := by
  intro h'
  obtain ⟨hfront, next, hnext, hchain⟩ := read_front h
  have hskip : queue.dequeueThread =
      dequeueLoop queue.nodes.keys.card { queue with front := next } := by
    rw [dequeueThread, if_neg (by rw [hfront]; exact Option.some_ne_none a), fuel, dequeueLoop,
      hfront]
    change (queue.read a >>= fun cell => if cell.content.threadCvState = .waiting then _ else _) = _
    rw [read_eq_ok hnext]
    exact if_neg hx
  rw [hskip] at hrun
  have hchain' : Chain { queue with front := next }.nodes next after none := hchain
  have hmem := dequeueLoop_front hchain' hrun h'.chain.1
  have hnodup := h.nodup
  rw [List.map_cons, List.nodup_cons] at hnodup
  exact hnodup.1 hmem

/-- The first node of a thread which is in the queue. -/
theorem Represents.findThread (h : Represents queue nodes) {thread : RunnerId}
    (hmem : thread ∈ nodes.contents.threads) :
    ∃ before a x next after, nodes = before ++ (a, x) :: after ∧ x.thread = thread ∧
      (∀ node ∈ before, node.2.thread ≠ thread) ∧ queue.nodes.lookup a = some ⟨x, next⟩ ∧
      queue.findNode (·.thread = thread) queue.fuel queue.front = .ok (some a) := by
  rcases h.findNode (·.thread = thread) with ⟨-, hnone⟩ | ⟨before, a, x, after, rfl, hx, hne, hfind⟩
  · obtain ⟨y, hy, hthread⟩ := ThreadQueue.mem_threads.mp hmem
    obtain ⟨node, hnode, rfl⟩ := List.mem_map.mp hy
    exact absurd (by simpa using hthread) (hnone node hnode)
  · obtain ⟨next, hnext⟩ := h.lookup
    exact ⟨before, a, x, next, after, rfl, by simpa using hx,
      fun node hnode => by simpa using hne node hnode, hnext, hfind⟩

theorem modify_length (f : ℕ × ThreadQueueNode → ℕ × ThreadQueueNode) :
    (before ++ (a, x) :: after).modify before.length f = before ++ f (a, x) :: after := by
  induction before with
  | nil => rfl
  | cons node before ih =>
    rw [List.cons_append, List.length_cons, List.modify_succ_cons, ih, List.cons_append]

theorem updateThreadCvState_eq (h : Represents queue nodes) {thread : RunnerId}
    (newState : ConditionVariableStatus) (hmem : thread ∈ nodes.contents.threads) :
    ∃ queue', queue.updateThreadCvState thread newState = .ok queue' ∧
      Represents queue' (nodes.modify (nodes.findIdx (·.2.thread = thread)) fun node =>
        (node.1, { node.2 with threadCvState := newState })) := by
  obtain ⟨before, a, x, next, after, rfl, hx, hne, hnext, hfind⟩ := h.findThread hmem
  have hidx : (before ++ (a, x) :: after).findIdx (·.2.thread = thread) = before.length := by
    rw [List.findIdx_append, List.findIdx_eq_length.mpr (by simpa using hne),
      List.findIdx_cons, decide_eq_true hx]
    simp
  have haddresses : (before ++ (a, ({ x with threadCvState := newState } : ThreadQueueNode)) ::
      after).map Prod.fst = (before ++ (a, x) :: after).map Prod.fst := by simp
  rw [hidx, modify_length]
  refine ⟨{ queue with
    nodes := queue.nodes.insert a ⟨{ x with threadCvState := newState }, next⟩ }, ?_, ?_⟩
  · rw [updateThreadCvState, hfind]
    change (queue.read a >>= fun cell => _) = _
    rw [read_eq_ok hnext]
    rfl
  · refine ⟨h.chain.set h.nodup hnext, haddresses ▸ h.nodup, ?_, ?_, fun c => ?_⟩
    · rw [h.rear_eq, ← List.getLast?_map, ← List.getLast?_map, haddresses]
    · rw [h.size_eq, List.length_append, List.length_append, List.length_cons, List.length_cons]
    · rw [haddresses, Finmap.mem_insert, h.mem_nodes]
      refine or_iff_right_of_imp ?_
      rintro rfl
      simp

theorem getThreadCvState_eq (h : Represents queue nodes) {thread : RunnerId}
    (hmem : thread ∈ nodes.contents.threads) : queue.getThreadCvState thread =
      .ok ((nodes.contents.getThreadCvState thread).getD .uninitialized) := by
  obtain ⟨before, a, x, next, after, rfl, hx, hne, hnext, hfind⟩ := h.findThread hmem
  have hcontents : (Placed.contents (before ++ (a, x) :: after)).getThreadCvState thread =
      some x.threadCvState := by
    rw [ThreadQueue.getThreadCvState, Placed.contents, List.map_append, List.find?_append,
      List.find?_map, List.find?_eq_none.mpr (by simpa using hne), List.map_cons, List.find?_cons,
      decide_eq_true hx]
    rfl
  rw [LinkedQueue.getThreadCvState, hfind, hcontents]
  change (queue.read a >>= fun cell => .ok cell.content.threadCvState) = _
  rw [read_eq_ok hnext]
  rfl

theorem getWaitingThreadNode_eq (h : Represents queue nodes) :
    queue.getWaitingThreadNode = .ok nodes.contents.getWaitingThreadNode := by
  have hcontents : nodes.contents.find? (·.threadCvState = .waiting) =
      (nodes.find? (·.2.threadCvState = .waiting)).map Prod.snd := by
    rw [Placed.contents, List.find?_map]
    rfl
  rw [ThreadQueue.getWaitingThreadNode, hcontents, LinkedQueue.getWaitingThreadNode]
  rw [findNode_eq (fun node => node.threadCvState = .waiting) h.chain h.length_lt_fuel]
  cases hfind : nodes.find? (·.2.threadCvState = .waiting) with
  | none => rfl
  | some node =>
    obtain ⟨-, before, after, rfl, -⟩ := List.find?_eq_some_iff_append.mp hfind
    obtain ⟨next, hnext⟩ := h.lookup (a := node.1) (x := node.2)
    change (queue.read node.1 >>= fun cell => .ok cell.content.thread) = _
    rw [read_eq_ok hnext]
    rfl

theorem isInThreadQueue_eq (h : Represents queue nodes) (thread : RunnerId) :
    queue.isInThreadQueue thread = .ok (nodes.contents.isInThreadQueue thread) := by
  have hsome : ((nodes.find? (·.2.thread = thread)).map Prod.fst).isSome =
      nodes.contents.isInThreadQueue thread := by
    rw [Option.isSome_map, List.isSome_find?, ThreadQueue.isInThreadQueue, Placed.contents,
      List.any_map]
    rfl
  rw [LinkedQueue.isInThreadQueue,
    findNode_eq (fun node => node.thread = thread) h.chain h.length_lt_fuel, ← hsome]
  rfl

theorem printThreadQueue_eq (h : Represents queue nodes) :
    queue.printThreadQueue = .ok (if nodes.contents = [] then none
      else some (BitVec.ofNat 32 nodes.contents.length, nodes.contents)) := by
  have hempty : nodes.contents = [] ↔ queue.front = none := by
    rw [h.front_eq_none_iff, Placed.contents, List.map_eq_nil_iff]
  have hsize : queue.size = BitVec.ofNat 32 nodes.contents.length := by
    refine BitVec.eq_of_toInt_eq ?_
    have hlt := BitVec.toInt_lt (x := queue.size)
    have hlength : nodes.contents.length = nodes.length := List.length_map _
    rw [h.size_eq] at hlt ⊢
    rw [BitVec.toInt_ofNat', hlength, Int.bmod_eq_of_le (by omega) (by omega)]
  rw [LinkedQueue.printThreadQueue]
  by_cases hfront : queue.front = none
  · rw [if_pos hfront, if_pos (hempty.mpr hfront)]
  · rw [if_neg hfront, if_neg (fun h => hfront (hempty.mp h)),
      printLoop_eq h.chain h.length_lt_fuel, hsize]
    rfl

theorem isQueueEmpty_eq (h : Represents queue nodes) :
    queue.isQueueEmpty = nodes.contents.isEmpty := by
  rw [LinkedQueue.isQueueEmpty, Placed.contents, List.isEmpty_map, Bool.eq_iff_iff,
    decide_eq_true_iff, h.front_eq_none_iff, List.isEmpty_iff]

theorem peekThread_eq (h : Represents queue ((a, x) :: after)) : queue.peekThread = .ok x.thread := by
  obtain ⟨hfront, next, hnext, -⟩ := read_front h
  rw [peekThread, hfront]
  change (queue.read a >>= fun cell => .ok cell.content.thread) = _
  rw [read_eq_ok hnext]
  rfl

/-! ### One call -/

/-- A call which does not run into a deviation does what it should. -/
theorem perform_of_harmless (h : Represents queue nodes) {op : Op}
    (hspec : op.spec nodes = some nodes') (hop : op.Harmless nodes) :
    ∃ queue', perform op queue = .ok (op.result nodes.contents, queue') ∧
      Represents queue' nodes' := by
  cases op with
  | enqueueThread thread cvState malloc =>
    cases malloc with
    | none => cases hspec
    | some a =>
      rw [Op.spec] at hspec
      split_ifs at hspec with ha
      obtain ⟨heap, front, rear, hrun, hqueue'⟩ := enqueueThread_eq h ha thread cvState
      rw [← Option.some.inj hspec]
      -- the counter has not overflowed
      exact ⟨_, by rw [perform, hrun]; rfl, hqueue' hop⟩
  | dequeueThread =>
    rw [Op.spec] at hspec
    split_ifs at hspec with hempty
    obtain ⟨⟨a, x⟩, after, rfl⟩ := List.exists_cons_of_ne_nil hempty
    -- the first node waits, so it is the first which does
    have hx : x.threadCvState = .waiting := hop (a, x) rfl
    obtain ⟨queue', hrun, hqueue'⟩ := dequeueThread_eq h hx
    have hfirst : Placed.contents ((a, x) :: after) = x :: Placed.contents after := rfl
    rw [List.eraseP_cons_of_pos (by simpa using hx)] at hspec
    rw [← Option.some.inj hspec]
    refine ⟨queue', ?_, hqueue'⟩
    rw [perform, hrun, Op.result, hfirst, ThreadQueue.getWaitingThreadNode,
      List.find?_cons_of_pos (by simpa using hx)]
    rfl
  | peekThread =>
    rw [Op.spec] at hspec
    split_ifs at hspec with hempty
    obtain ⟨⟨a, x⟩, after, rfl⟩ := List.exists_cons_of_ne_nil hempty
    rw [← Option.some.inj hspec]
    exact ⟨queue, by rw [perform, peekThread_eq h]; rfl, h⟩
  | getThreadCvState thread =>
    rw [Op.spec] at hspec
    split_ifs at hspec with hmem
    rw [← Option.some.inj hspec]
    exact ⟨queue, by rw [perform, getThreadCvState_eq h hmem]; rfl, h⟩
  | updateThreadCvState thread newState =>
    rw [Op.spec] at hspec
    split_ifs at hspec with hmem
    obtain ⟨queue', hrun, hqueue'⟩ := updateThreadCvState_eq h newState hmem
    rw [← Option.some.inj hspec]
    exact ⟨queue', by rw [perform, hrun]; rfl, hqueue'⟩
  | removeThreadFromQueue tid =>
    obtain ⟨queue', hrun, hqueue'⟩ := removeThreadFromQueue_eq h tid
    rw [← Option.some.inj hspec]
    exact ⟨queue', by rw [perform, hrun]; rfl, hqueue'⟩
  | isInThreadQueue thread =>
    exact ⟨queue, by rw [perform, isInThreadQueue_eq h]; rfl, Option.some.inj hspec ▸ h⟩
  | isQueueEmpty => exact ⟨queue, by rw [perform, isQueueEmpty_eq h]; rfl, Option.some.inj hspec ▸ h⟩
  | printThreadQueue =>
    exact ⟨queue, by rw [perform, printThreadQueue_eq h]; rfl, Option.some.inj hspec ▸ h⟩
  | getWaitingThreadNode =>
    exact ⟨queue, by rw [perform, getWaitingThreadNode_eq h]; rfl, Option.some.inj hspec ▸ h⟩

/-- A call which runs into a deviation does not. -/
theorem not_represents_of_not_harmless (h : Represents queue nodes) {op : Op}
    (hspec : op.spec nodes = some nodes') (hop : ¬ op.Harmless nodes) {result : Result}
    (hrun : perform op queue = .ok (result, queue')) : ¬ Represents queue' nodes' := by
  cases op with
  | enqueueThread thread cvState malloc =>
    intro h'
    cases malloc with
    | none => cases hspec
    | some a =>
      rw [Op.spec] at hspec
      split_ifs at hspec with ha
      -- the counter does not fit the length any more
      have hsize := h'.size_eq
      rw [← Option.some.inj hspec, List.length_append, List.length_singleton] at hsize
      exact toInt_ne_of_le (not_lt.mp hop) hsize
  | dequeueThread =>
    rw [Op.spec] at hspec
    split_ifs at hspec with hempty
    obtain ⟨⟨a, x⟩, after, rfl⟩ := List.exists_cons_of_ne_nil hempty
    -- `dequeue_thread` frees the first node, whatever its status is
    have hx : x.threadCvState ≠ .waiting := by
      intro hwaiting
      refine hop fun node hnode => ?_
      rw [← Option.some.inj hnode]
      exact hwaiting
    rw [List.eraseP_cons_of_neg (by simpa using hx)] at hspec
    rw [← Option.some.inj hspec]
    cases hdequeue : queue.dequeueThread with
    | error e =>
      rw [perform, hdequeue] at hrun
      cases hrun
    | ok dequeued =>
      rw [perform, hdequeue] at hrun
      obtain ⟨-, rfl⟩ := Prod.mk.inj (Except.ok.inj hrun)
      exact not_represents_dequeueThread h hx hdequeue
  | peekThread => exact absurd trivial hop
  | getThreadCvState thread => exact absurd trivial hop
  | updateThreadCvState thread newState => exact absurd trivial hop
  | removeThreadFromQueue tid => exact absurd trivial hop
  | isInThreadQueue thread => exact absurd trivial hop
  | isQueueEmpty => exact absurd trivial hop
  | printThreadQueue => exact absurd trivial hop
  | getWaitingThreadNode => exact absurd trivial hop

/-! ### A sequence of calls -/

/-- After each of the calls the queue in memory is made of the nodes of which it should be. -/
def BehavesFrom (queue : LinkedQueue) (nodes : Placed) (ops : List Op) : Prop :=
  ∀ before nodes', before <+: ops → runFrom Op.spec nodes before = some nodes' →
    ∃ queue', performAll before queue = .ok queue' ∧ Represents queue' nodes'

theorem performAll_cons_eq_ok {op : Op} {ops : List Op} :
    performAll (op :: ops) queue = .ok queue' ↔
      ∃ result, perform op queue = .ok result ∧ performAll ops result.2 = .ok queue' := by
  rw [performAll]
  cases perform op queue with
  | error e => exact ⟨fun h => (by cases h), fun ⟨_, h, _⟩ => (by cases h)⟩
  | ok result =>
    constructor
    · exact fun h => ⟨result, rfl, h⟩
    · rintro ⟨result', heq, h⟩
      rwa [Except.ok.inj heq]

theorem behavesFrom_cons {op : Op} {ops : List Op} (h : Represents queue nodes)
    (hspec : op.spec nodes = some nodes') :
    BehavesFrom queue nodes (op :: ops) ↔ ∃ result queue', perform op queue = .ok (result, queue') ∧
      Represents queue' nodes' ∧ BehavesFrom queue' nodes' ops := by
  constructor
  · intro hbehaves
    obtain ⟨queue₁, hrun, hqueue₁⟩ := hbehaves [op] nodes' ⟨ops, rfl⟩
      (runFrom_cons_eq_some.mpr ⟨nodes', hspec, rfl⟩)
    obtain ⟨result, hperform, hnil⟩ := performAll_cons_eq_ok.mp hrun
    obtain rfl : result.2 = queue₁ := Except.ok.inj hnil
    refine ⟨result.1, result.2, hperform, hqueue₁, fun before nodes'' hbefore hrun' => ?_⟩
    obtain ⟨queue₂, hrun₂, hqueue₂⟩ := hbehaves (op :: before) nodes''
      (List.cons_prefix_cons.mpr ⟨rfl, hbefore⟩) (runFrom_cons_eq_some.mpr ⟨nodes', hspec, hrun'⟩)
    obtain ⟨result', hperform', hrest⟩ := performAll_cons_eq_ok.mp hrun₂
    rw [hperform] at hperform'
    rw [← Except.ok.inj hperform'] at hrest
    exact ⟨queue₂, hrest, hqueue₂⟩
  · rintro ⟨result, queue', hperform, -, hbehaves⟩ before nodes'' hbefore hrun
    cases before with
    | nil =>
      obtain rfl : nodes = nodes'' := Option.some.inj hrun
      exact ⟨queue, rfl, h⟩
    | cons op' before =>
      obtain ⟨rfl, hrest⟩ := List.cons_prefix_cons.mp hbefore
      obtain ⟨nodes₁, hspec₁, hrun₁⟩ := runFrom_cons_eq_some.mp hrun
      obtain rfl : nodes' = nodes₁ := Option.some.inj (hspec.symm.trans hspec₁)
      obtain ⟨queue₂, hrun₂, hqueue₂⟩ := hbehaves before nodes'' hrest hrun₁
      exact ⟨queue₂, performAll_cons_eq_ok.mpr ⟨_, hperform, hrun₂⟩, hqueue₂⟩

theorem behavesFrom_iff {ops : List Op} (h : Represents queue nodes)
    (hrespects : (runFrom Op.spec nodes ops).isSome) :
    BehavesFrom queue nodes ops ↔ HoldsAlong Op.spec Op.Harmless nodes ops := by
  induction ops generalizing queue nodes with
  | nil =>
    refine ⟨fun _ => trivial, fun _ before nodes' hbefore hrun => ?_⟩
    rw [List.prefix_nil] at hbefore
    subst hbefore
    exact ⟨queue, rfl, Option.some.inj hrun ▸ h⟩
  | cons op ops ih =>
    obtain ⟨last, hlast⟩ := Option.isSome_iff_exists.mp hrespects
    obtain ⟨nodes', hspec, hrun⟩ := runFrom_cons_eq_some.mp hlast
    have hrest : (runFrom Op.spec nodes' ops).isSome := Option.isSome_iff_exists.mpr ⟨last, hrun⟩
    rw [behavesFrom_cons h hspec, HoldsAlong]
    constructor
    · rintro ⟨result, queue', hperform, hqueue', hbehaves⟩
      refine ⟨?_, fun nodes₁ hnodes₁ => ?_⟩
      · by_contra hop
        exact not_represents_of_not_harmless h hspec hop hperform hqueue'
      · obtain rfl : nodes' = nodes₁ := Option.some.inj (hspec.symm.trans hnodes₁)
        exact (ih hqueue' hrest).mp hbehaves
    · rintro ⟨hop, hholds⟩
      obtain ⟨queue', hperform, hqueue'⟩ := perform_of_harmless h hspec hop
      exact ⟨_, queue', hperform, hqueue', (ih hqueue' hrest).mpr (hholds nodes' hspec)⟩

/-- A new queue behaves as the list. -/
def Behaves (size : BitVec 32) (ops : List Op) : Prop :=
  ∃ queue, createThreadQueue (some size) = .ok queue ∧ BehavesFrom queue [] ops

theorem represents_create {size : BitVec 32} :
    Represents { size := size } [] ↔ size = 0 := by
  constructor
  · intro h
    exact BitVec.eq_of_toInt_eq h.size_eq
  · rintro rfl
    exact ⟨rfl, List.nodup_nil, rfl, rfl, fun a =>
      ⟨fun h => absurd h Finmap.notMem_empty, fun h => absurd h List.not_mem_nil⟩⟩

/-- The queue in memory behaves as the list exactly where the counter happens to be 0 at first,
every thread is dequeued while a waiting node is in front, and the queue stays shorter than
`2 ^ 31`. -/
theorem behaves_iff (size : BitVec 32) (ops : List Op)
    (hrespects : (runFrom Op.spec [] ops).isSome) :
    Behaves size ops ↔ size = 0 ∧ HoldsAlong Op.spec Op.Harmless [] ops := by
  constructor
  · rintro ⟨queue, hqueue, hbehaves⟩
    obtain rfl : { size := size } = queue := Except.ok.inj hqueue
    obtain ⟨queue', hnil, hqueue'⟩ := hbehaves [] [] List.nil_prefix rfl
    obtain rfl : { size := size } = queue' := Except.ok.inj hnil
    exact ⟨represents_create.mp hqueue', (behavesFrom_iff hqueue' hrespects).mp hbehaves⟩
  · rintro ⟨hsize, hholds⟩
    exact ⟨_, rfl, (behavesFrom_iff (represents_create.mpr hsize) hrespects).mpr hholds⟩

/-- Two threads are queued, and taken out in the other order. -/
theorem behaves_twoThreads : Behaves 0 [.enqueueThread 5 .waiting (some 8),
    .enqueueThread 6 .prewaiting (some 9), .removeThreadFromQueue 6, .dequeueThread] := by
  refine (behaves_iff 0 _ (by decide)).mpr ⟨rfl, ?_⟩
  simp [HoldsAlong, Op.Harmless, Op.spec]

/-- A thread which is not yet waiting is queued, and lost by `dequeue_thread`. -/
theorem not_behaves_prewaiting :
    ¬ Behaves 0 [.enqueueThread 5 .prewaiting (some 8), .dequeueThread] := by
  rintro ⟨queue, hqueue, hbehaves⟩
  obtain rfl : { size := 0 } = queue := Except.ok.inj hqueue
  obtain ⟨queue', hrun, hqueue'⟩ := hbehaves _ [(8, ⟨5, .prewaiting⟩)] (List.prefix_refl _) rfl
  have hfront : (performAll [.enqueueThread 5 .prewaiting (some 8), .dequeueThread]
      { size := 0 }).map (·.front) = .ok none := by rfl
  rw [hrun] at hfront
  have hnone : queue'.front = none := Except.ok.inj hfront
  exact absurd (hnone.symm.trans hqueue'.chain.1) (Option.some_ne_none 8).symm

/-! ### The recorded queue -/

/-- The contents follow the recorded queue along a run. -/
theorem contents_of_runFrom {ops : List Op} (h : runFrom Op.spec nodes ops = some nodes') :
    nodes'.contents = ops.foldl (fun queue op => op.onContents queue) nodes.contents := by
  induction ops generalizing nodes with
  | nil =>
    obtain rfl : nodes = nodes' := Option.some.inj h
    rfl
  | cons op ops ih =>
    obtain ⟨nodes₁, hspec, hrun⟩ := runFrom_cons_eq_some.mp h
    rw [List.foldl_cons, ← contents_spec hspec]
    exact ih hrun

/-- Where none of the deviations happens, a new queue holds what the calls make of the recorded
one. -/
theorem exists_contents_of_harmless {ops : List Op} (hrespects : (runFrom Op.spec [] ops).isSome)
    (hharmless : HoldsAlong Op.spec Op.Harmless [] ops) :
    ∃ queue nodes, performAll ops { size := 0 } = .ok queue ∧ Represents queue nodes ∧
      nodes.contents = ops.foldl (fun queue op => op.onContents queue) [] := by
  obtain ⟨nodes, hrun⟩ := Option.isSome_iff_exists.mp hrespects
  have hbehaves := (behavesFrom_iff (represents_create.mpr rfl) hrespects).mpr hharmless
  obtain ⟨queue, hqueue, hrepresents⟩ := hbehaves ops nodes (List.prefix_refl ops) hrun
  exact ⟨queue, nodes, hqueue, hrepresents, contents_of_runFrom hrun⟩

end McMini.Record.LinkedQueue
