import McMini.Foundation.LinkedList
import McMini.Foundation.Runs
import McMini.Record.Objects

/-!
# The queue of waiting threads in memory

`Record.ThreadQueue` is the queue of waiting threads as a list. Here it is what the code keeps: a
chain of allocated nodes, with pointers to the first and the last of them and a counter. Reading
what is not allocated is an outcome of its own, and the loops are given one round more than there
are allocated cells.

**`create_thread_queue`** sets the two pointers. What the counter is then is up to `malloc`.

**`dequeue_thread`** moves the pointer to the first node over every node which is not waiting;
these nodes are no longer reachable and are not freed.
-/

namespace McMini.Record

open Foundation

/-- How a function does not return. -/
inductive Stop
  /-- `exit(EXIT_FAILURE)`, after the message. -/
  | exit (msg : String)
  /-- What a pointer points to is not allocated. -/
  | dangling
  /-- A loop has run over more nodes than there are. -/
  | endless
  deriving DecidableEq, Repr

/-- `thread_queue`, and the nodes which are allocated. -/
structure LinkedQueue where
  nodes : Heap (Cell ThreadQueueNode) := ∅
  front : Option ℕ := none
  rear : Option ℕ := none
  size : BitVec 32

namespace LinkedQueue

variable (queue : LinkedQueue)

/-- `create_thread_queue`, where `malloc` fails or the memory holds a number in the place of the
counter. -/
def createThreadQueue : Option (BitVec 32) → Except Stop LinkedQueue
  | none => .error (.exit "Failed to allocate memory for thread queue")
  | some size => .ok { size := size }

/-- `create_thread_queue_node`, with what `malloc` returns. -/
def createThreadQueueNode : Option ℕ → Except Stop ℕ
  | none => .error (.exit "Failed to allocate memory for thread queue node")
  | some node => .ok node

def read (node : ℕ) : Except Stop (Cell ThreadQueueNode) :=
  match queue.nodes.lookup node with
  | some cell => .ok cell
  | none => .error .dangling

/-- How often a loop over the nodes may go round. -/
def fuel : ℕ := queue.nodes.keys.card + 1

def enqueueThread (thread : RunnerId) (cvState : ConditionVariableStatus) (malloc : Option ℕ) :
    Except Stop LinkedQueue := do
  let node ← createThreadQueueNode malloc
  let nodes := queue.nodes.insert node ⟨⟨thread, cvState⟩, none⟩
  match queue.rear with
  | none => .ok ⟨nodes, some node, some node, queue.size + 1⟩
  | some rear => do
    let cell ← read { queue with nodes := nodes } rear
    .ok ⟨nodes.insert rear { cell with next := some node }, queue.front, some node, queue.size + 1⟩

/-- The end of the functions which remove the node in front. -/
def freeFront (node : ℕ) (cell : Cell ThreadQueueNode) : LinkedQueue where
  nodes := queue.nodes.erase node
  front := cell.next
  rear := if cell.next = none then none else queue.rear
  size := queue.size - 1

/-- The loop of `dequeue_thread`. -/
def dequeueLoop : ℕ → LinkedQueue → Except Stop (RunnerId × LinkedQueue)
  | 0, _ => .error .endless
  | rounds + 1, queue =>
    match queue.front with
    | none => .ok (ridInvalid, queue)
    | some node => do
      let cell ← queue.read node
      if cell.content.threadCvState = .waiting then
        .ok (cell.content.thread, queue.freeFront node cell)
      else dequeueLoop rounds { queue with front := cell.next }

def dequeueThread : Except Stop (RunnerId × LinkedQueue) :=
  if queue.front = none then .error (.exit "Error: Attempt to dequeue from an empty queue\n")
  else dequeueLoop queue.fuel queue

def peekThread : Except Stop RunnerId :=
  match queue.front with
  | none => .error (.exit "Error: Attempt to peek at an empty queue\n")
  | some node => do
    let cell ← queue.read node
    .ok cell.content.thread

/-- The loops which look for the first node with a property. -/
def findNode (test : ThreadQueueNode → Bool) : ℕ → Option ℕ → Except Stop (Option ℕ)
  | 0, _ => .error .endless
  | _ + 1, none => .ok none
  | rounds + 1, some current => do
    let cell ← queue.read current
    if test cell.content then .ok (some current) else findNode test rounds cell.next

def isInThreadQueue (thread : RunnerId) : Except Stop Bool := do
  let node ← queue.findNode (·.thread = thread) queue.fuel queue.front
  .ok node.isSome

def isQueueEmpty : Bool := queue.front = none

/-- The loop of `print_thread_queue`: what it prints of each node. -/
def printLoop : ℕ → Option ℕ → Except Stop (List ThreadQueueNode)
  | 0, _ => .error .endless
  | _ + 1, none => .ok []
  | rounds + 1, some current => do
    let cell ← queue.read current
    let rest ← printLoop rounds cell.next
    .ok (cell.content :: rest)

/-- `print_thread_queue`: nothing of an empty queue, else the counter and the nodes. -/
def printThreadQueue : Except Stop (Option (BitVec 32 × List ThreadQueueNode)) :=
  if queue.front = none then .ok none
  else do
    let nodes ← queue.printLoop queue.fuel queue.front
    .ok (some (queue.size, nodes))

def getThreadCvState (thread : RunnerId) : Except Stop ConditionVariableStatus := do
  match ← queue.findNode (·.thread = thread) queue.fuel queue.front with
  | some node => do
    let cell ← queue.read node
    .ok cell.content.threadCvState
  | none =>
    .error (.exit ("Error get_thread_cv: Thread " ++ toString thread ++ " not found in the queue\n"))

def updateThreadCvState (thread : RunnerId) (newState : ConditionVariableStatus) :
    Except Stop LinkedQueue := do
  match ← queue.findNode (·.thread = thread) queue.fuel queue.front with
  | some node => do
    let cell ← queue.read node
    let content := { cell.content with threadCvState := newState }
    .ok { queue with nodes := queue.nodes.insert node ⟨content, cell.next⟩ }
  | none =>
    .error (.exit ("Error update_thread_cv_state: Thread " ++ toString thread ++
      " not found in the queue\n"))

def getWaitingThreadNode : Except Stop RunnerId := do
  match ← queue.findNode (·.threadCvState = .waiting) queue.fuel queue.front with
  | some node => do
    let cell ← queue.read node
    .ok cell.content.thread
  | none => .ok ridInvalid

/-- The loop of `remove_thread_from_queue`. -/
def removeLoop (tid : RunnerId) : ℕ → ℕ → Except Stop (ℤ × LinkedQueue)
  | 0, _ => .error .endless
  | rounds + 1, current => do
    let cell ← queue.read current
    match cell.next with
    | none => .ok (-1, queue)
    | some toRemove => do
      let removed ← queue.read toRemove
      if removed.content.thread = tid then
        let nodes := queue.nodes.insert current { cell with next := removed.next }
        -- the last node is removed
        let rear := if some toRemove = queue.rear then some current else queue.rear
        .ok (0, ⟨nodes.erase toRemove, queue.front, rear, queue.size - 1⟩)
      else removeLoop tid rounds toRemove

/-- `remove_thread_from_queue`, of a queue which is there. -/
def removeThreadFromQueue (tid : RunnerId) : Except Stop (ℤ × LinkedQueue) :=
  match queue.front with
  | none => .ok (-1, queue)
  | some node => do
    let cell ← queue.read node
    if cell.content.thread = tid then .ok (0, queue.freeFront node cell)
    else queue.removeLoop tid queue.fuel node

/-- The calls. That of `enqueue_thread` comes with what `malloc` returns in it. -/
inductive Op
  | enqueueThread (thread : RunnerId) (cvState : ConditionVariableStatus) (malloc : Option ℕ)
  | dequeueThread
  | peekThread
  | isInThreadQueue (thread : RunnerId)
  | isQueueEmpty
  | printThreadQueue
  | getThreadCvState (thread : RunnerId)
  | updateThreadCvState (thread : RunnerId) (newState : ConditionVariableStatus)
  | getWaitingThreadNode
  | removeThreadFromQueue (tid : RunnerId)
  deriving DecidableEq, Repr

/-- What the calls return. -/
inductive Result
  | nothing
  | runner (thread : RunnerId)
  | bool (value : Bool)
  | printed (value : Option (BitVec 32 × List ThreadQueueNode))
  | status (value : ConditionVariableStatus)
  | int (value : ℤ)
  deriving DecidableEq, Repr

def perform : Op → LinkedQueue → Except Stop (Result × LinkedQueue)
  | .enqueueThread thread cvState malloc, queue => do
    let queue' ← queue.enqueueThread thread cvState malloc
    .ok (.nothing, queue')
  | .dequeueThread, queue => do
    let result ← queue.dequeueThread
    .ok (.runner result.1, result.2)
  | .peekThread, queue => do
    let thread ← queue.peekThread
    .ok (.runner thread, queue)
  | .isInThreadQueue thread, queue => do
    let value ← queue.isInThreadQueue thread
    .ok (.bool value, queue)
  | .isQueueEmpty, queue => .ok (.bool queue.isQueueEmpty, queue)
  | .printThreadQueue, queue => do
    let value ← queue.printThreadQueue
    .ok (.printed value, queue)
  | .getThreadCvState thread, queue => do
    let value ← queue.getThreadCvState thread
    .ok (.status value, queue)
  | .updateThreadCvState thread newState, queue => do
    let queue' ← queue.updateThreadCvState thread newState
    .ok (.nothing, queue')
  | .getWaitingThreadNode, queue => do
    let thread ← queue.getWaitingThreadNode
    .ok (.runner thread, queue)
  | .removeThreadFromQueue tid, queue => do
    let result ← queue.removeThreadFromQueue tid
    .ok (.int result.1, result.2)

/-- The queue after a sequence of calls. -/
def performAll : List Op → LinkedQueue → Except Stop LinkedQueue
  | [], queue => .ok queue
  | op :: ops, queue => do
    let result ← perform op queue
    performAll ops result.2

end LinkedQueue

end McMini.Record
