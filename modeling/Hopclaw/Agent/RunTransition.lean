import Hopclaw.Agent.Types

/-! # Transitions of a run record

`transitionRun` (`agent/run_transition.go`) is the one function of the agent that consults the
transition table. It edits the caller's private copy of a run; a transition the table does not
have is logged and leaves the copy as it was, options included. -/

namespace Hopclaw

open GoStrings

/-- The options of a transition; `none` leaves the field alone. -/
structure RunTransitionSpec where
  error : Option String := none
  approvalID : Option String := none
  pendingTools : Option (List ToolCall) := none
  finishedAt : Option Time := none
  lastSessionRevision : Option ℕ := none

def RunTransitionSpec.apply (spec : RunTransitionSpec) (run : Run) : Run :=
  { run with
    error := (spec.error.map trimSpace).getD run.error
    approvalID := (spec.approvalID.map trimSpace).getD run.approvalID
    pendingTools := spec.pendingTools.getD run.pendingTools
    finishedAt := spec.finishedAt.getD run.finishedAt
    lastSessionRevision := spec.lastSessionRevision.getD run.lastSessionRevision }

@[simp] theorem RunTransitionSpec.apply_status (spec : RunTransitionSpec) (run : Run) :
    (spec.apply run).status = run.status := rfl

/-- `status` and `phase` are `none` where the source passes the empty string. -/
def transitionRun (run : Run) (status : Option RunStatus) (phase : Option RunPhase)
    (opts : RunTransitionSpec := {}) : Run :=
  match status with
  | none => opts.apply { run with phase := phase.getD run.phase }
  | some target =>
    if target ≠ run.status && !RunStatus.validTransition run.status target then run
    else opts.apply { run with status := target, phase := phase.getD run.phase }

section

variable (run : Run) (status : Option RunStatus) (phase : Option RunPhase)
  (opts : RunTransitionSpec)

@[simp] theorem transitionRun_id : (transitionRun run status phase opts).id = run.id := by
  unfold transitionRun
  split
  · rfl
  · split_ifs <;> rfl

@[simp] theorem transitionRun_sessionID :
    (transitionRun run status phase opts).sessionID = run.sessionID := by
  unfold transitionRun
  split
  · rfl
  · split_ifs <;> rfl

@[simp] theorem transitionRun_inputEventID :
    (transitionRun run status phase opts).inputEventID = run.inputEventID := by
  unfold transitionRun
  split
  · rfl
  · split_ifs <;> rfl

@[simp] theorem transitionRun_queueMode :
    (transitionRun run status phase opts).queueMode = run.queueMode := by
  unfold transitionRun
  split
  · rfl
  · split_ifs <;> rfl

/-- The status stays or moves along the table. -/
theorem transitionRun_step :
    RunStatus.Step run.status (transitionRun run status phase opts).status := by
  unfold transitionRun
  split
  · exact Or.inl rfl
  · rename_i target
    split_ifs with h
    · exact Or.inl rfl
    · by_cases heq : target = run.status
      · exact Or.inl heq.symm
      · exact Or.inr (by simpa [heq] using h)

end

/-- An admitted transition takes effect as a whole. -/
theorem transitionRun_of_valid {run : Run} {target : RunStatus} (phase : Option RunPhase)
    (opts : RunTransitionSpec) (h : RunStatus.validTransition run.status target = true) :
    transitionRun run (some target) phase opts =
      opts.apply { run with status := target, phase := phase.getD run.phase } := by
  simp [transitionRun, h]

/-- A refused transition changes nothing at all. -/
theorem transitionRun_of_invalid {run : Run} {target : RunStatus} (phase : Option RunPhase)
    (opts : RunTransitionSpec) (hne : target ≠ run.status)
    (h : RunStatus.validTransition run.status target = false) :
    transitionRun run (some target) phase opts = run := by
  simp [transitionRun, h, hne]

end Hopclaw
