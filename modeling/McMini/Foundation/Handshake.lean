import McMini.Foundation.Runs

/-!
# Handshakes

A server serves requests one at a time: it accepts a request, answers it and is then at rest,
until there is another one. A client requests, and waits for the answer before it requests
again. `step` is the protocol which the two keep to, as a partial step function on the phases
of a round. A server may be at rest in every phase but the one in which it owes an answer.

In a history of the protocol every request is accepted once, answered once and its answer
received once (`counts`), and nothing is left over when it is over (`counts_idle`).
-/

namespace McMini.Foundation.Handshake

variable {α : Type*}

inductive Event (α : Type*)
  | request
  | accept
  | answer (a : α)
  | receive (a : α)
  /-- The server rests. -/
  | rest
  deriving DecidableEq

inductive Phase (α : Type*)
  | idle
  | requested
  /-- The request is accepted and not yet answered. -/
  | owing
  | answered (a : α)
  deriving DecidableEq

/-- The protocol. -/
def step [DecidableEq α] : Event α → Phase α → Option (Phase α)
  | .request, .idle => some .requested
  | .accept, .requested => some .owing
  | .answer a, .owing => some (.answered a)
  | .receive b, .answered a => if a = b then some .idle else none
  | .rest, .owing => none
  | .rest, phase => some phase
  | _, _ => none

/-- A history in which both keep to the protocol. -/
def Keeps [DecidableEq α] (es : List (Event α)) : Prop :=
  ∃ phase, runFrom step .idle es = some phase

def Event.isAnswer : Event α → Bool
  | .answer _ => true
  | _ => false

def Event.isReceive : Event α → Bool
  | .receive _ => true
  | _ => false

/-- How many of the requests have not been answered to the client. -/
def Phase.outstanding : Phase α → ℕ
  | .idle => 0
  | _ => 1

/-- How many of the accepted requests the server has not answered. -/
def Phase.owed : Phase α → ℕ
  | .owing => 1
  | _ => 0

/-- How many answers have not been received. -/
def Phase.unread : Phase α → ℕ
  | .answered _ => 1
  | _ => 0

section Counts

variable [DecidableEq α] {es : List (Event α)} {phase : Phase α}

/-- One event, which is counted on one side or changes what the phase leaves open. -/
theorem step_counts {e : Event α} {phase' : Phase α} (h : step e phase = some phase') :
    [e].count .request + phase.outstanding =
        [e].countP Event.isReceive + phase'.outstanding ∧
      [e].count .accept + phase.owed = [e].countP Event.isAnswer + phase'.owed ∧
      [e].countP Event.isAnswer + phase.unread =
        [e].countP Event.isReceive + phase'.unread := by
  cases e with
  | request | accept | answer a =>
    cases phase <;> cases h
    exact ⟨rfl, rfl, rfl⟩
  | receive b =>
    cases phase with
    | answered a =>
      obtain ⟨-, hphase'⟩ := Option.ite_none_right_eq_some.mp h
      cases hphase'
      exact ⟨rfl, rfl, rfl⟩
    | idle | requested | owing => cases h
  | rest =>
    cases phase <;> cases h <;> exact ⟨rfl, rfl, rfl⟩

/-- What has been requested, accepted and answered, up to the round which is open. -/
theorem counts (h : runFrom step .idle es = some phase) :
    es.count .request = es.countP Event.isReceive + phase.outstanding ∧
      es.count .accept = es.countP Event.isAnswer + phase.owed ∧
      es.countP Event.isAnswer = es.countP Event.isReceive + phase.unread := by
  refine runFrom_induction
    (P := fun es phase => es.count .request = es.countP Event.isReceive + phase.outstanding ∧
      es.count .accept = es.countP Event.isAnswer + phase.owed ∧
      es.countP Event.isAnswer = es.countP Event.isReceive + phase.unread)
    ⟨rfl, rfl, rfl⟩ ?_ h
  intro es phase e phase' _ ih hstep
  obtain ⟨hrequest, haccept, hanswer⟩ := step_counts hstep
  simp only [List.count_append, List.countP_append]
  omega

/-- Between two rounds, every request has been accepted, answered and the answer received. -/
theorem counts_idle (h : runFrom step .idle es = some .idle) :
    es.count .accept = es.count .request ∧ es.countP Event.isAnswer = es.count .request ∧
      es.countP Event.isReceive = es.count .request := by
  obtain ⟨hrequest, haccept, hanswer⟩ := counts h
  simp only [Phase.outstanding, Phase.owed, Phase.unread, Nat.add_zero] at hrequest haccept hanswer
  omega

end Counts

end McMini.Foundation.Handshake
