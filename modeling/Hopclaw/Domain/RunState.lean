import Mathlib.Tactic.Common

/-! # The run lifecycle

The statuses, phases and queue modes of a run (`internal/domain/runstate/runstate.go`), and the
table `AllowedTransitions` that the source declares to be the state machine of the status. -/

namespace Hopclaw

/-- How a newly submitted run meets the work its session already has. -/
inductive QueueMode
  | enqueue | interrupt | coalesce | reject
deriving DecidableEq

inductive RunStatus
  | queued | waitingInput | running | waitingApproval | streaming
  | completed | failed | cancelled
deriving DecidableEq

namespace RunStatus

def terminal : RunStatus → Bool
  | completed | failed | cancelled => true
  | _ => false

/-- `AllowedTransitions`: the statuses each status may move to. -/
def allowedTransitions : RunStatus → List RunStatus
  | queued => [running, waitingInput, waitingApproval, cancelled]
  | waitingInput => [running, cancelled]
  | running => [waitingApproval, waitingInput, streaming, completed, failed, cancelled]
  | waitingApproval => [queued, running, completed, failed, cancelled]
  | streaming => [running, completed, failed, cancelled]
  -- Terminal states allow no further transitions.
  | completed => []
  | failed => []
  | cancelled => []

def validTransition (source target : RunStatus) : Bool :=
  source.allowedTransitions.contains target

/-- No transition leaves a terminal status. -/
theorem not_validTransition_of_terminal {s t : RunStatus} (h : s.terminal = true) :
    validTransition s t = false := by
  cases s <;> simp_all [terminal, validTransition, allowedTransitions]

/-- Every status that is not terminal may be cancelled. -/
theorem validTransition_cancelled {s : RunStatus} (h : s.terminal = false) :
    validTransition s cancelled = true := by
  cases s <;> simp_all [terminal, validTransition, allowedTransitions]

/-- The only non-terminal statuses the table does not lead to `failed` (or `completed`) are the two
    a run has before it starts. -/
theorem validTransition_failed_iff (s : RunStatus) :
    validTransition s failed = true ↔ s.terminal = false ∧ s ≠ queued ∧ s ≠ waitingInput := by
  cases s <;> simp [terminal, validTransition, allowedTransitions]

/-- `s` stays as it is or moves along the table. -/
def Step (s t : RunStatus) : Prop :=
  s = t ∨ validTransition s t = true

theorem Step.eq_of_terminal {s t : RunStatus} (h : Step s t) (hs : s.terminal = true) : t = s := by
  rcases h with h | h
  · exact h.symm
  · rw [not_validTransition_of_terminal hs] at h
    exact absurd h (by simp)

end RunStatus

inductive RunPhase
  | preparing | waitingModel | executingTools | waitingApproval | committing | finalize
deriving DecidableEq

inductive ExecutionMode
  | direct | planned | watch | workflow
deriving DecidableEq

end Hopclaw
