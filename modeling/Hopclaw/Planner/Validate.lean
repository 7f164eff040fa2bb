import Hopclaw.Domain.Err
import Hopclaw.Planner.State

/-! # Accepting a plan

`planner.Validate`: the plan a model proposed is brought into normal form or refused. It is edited
in place there and returned here; a refused plan is dropped by the caller. -/

namespace Hopclaw.Planner

open GoStrings

def trimNonEmpty (items : List String) : List String :=
  dedupeStrings items

def invalid (text : String) : Except Err Unit :=
  .error ⟨text, none⟩

def validateStrategy : Strategy → Except Err Strategy
  | .unknown text => .error ⟨"invalid strategy " ++ quoted text, none⟩
  | .unset => .ok .serial
  | strategy => .ok strategy

def validateFailurePolicy : FailurePolicy → Except Err FailurePolicy
  | .unknown text => .error ⟨"invalid failure_policy " ++ quoted text, none⟩
  | .unset => .ok .failFast
  | policy => .ok policy

def validateKind (taskID : String) : TaskKind → Except Err TaskKind
  | .unknown text => .error ⟨"task " ++ taskID ++ " has invalid kind " ++ quoted text, none⟩
  | .unset => .ok .execute
  | kind => .ok kind

def validateStatus (taskID : String) : TaskStatus → Except Err Unit
  | .unknown text => invalid ("task " ++ taskID ++ " has invalid status " ++ quoted text)
  | _ => .ok ()

/-- A task without an id gets one from its position. -/
def validateID (i : ℕ) (id : String) : String :=
  if trimSpace id = "" then "task_" ++ String.ofList (zeroPadded 1 (i + 1)) else trimSpace id

/-- The body of the loop over the tasks, at position `i` with the ids seen before it. -/
def validateTask (i : ℕ) (seen : List String) (task : Task) : Except Err Task := do
  let id := validateID i task.id
  let goal := trimSpace task.goal
  if goal = "" then invalid ("task " ++ id ++ " goal is required")
  let kind ← validateKind id task.kind
  validateStatus id task.status
  if id ∈ seen then invalid ("duplicate task id " ++ quoted id)
  return { task with
    id, goal, kind
    title := trimSpace task.title
    resultSummary := trimSpace task.resultSummary
    error := trimSpace task.error
    dependsOn := trimNonEmpty task.dependsOn
    outputs := trimNonEmpty task.outputs
    requiredCapabilities := trimNonEmpty task.requiredCapabilities
    verificationHints := trimNonEmpty task.verificationHints }

def validateTasks : ℕ → List String → List Task → Except Err (List Task)
  | _, _, [] => return []
  | i, seen, task :: rest => do
    let task ← validateTask i seen task
    let rest ← validateTasks (i + 1) (task.id :: seen) rest
    return task :: rest

/-- Every dependency is one of the plan's tasks. -/
def validateDependencies (ids : List String) (tasks : List Task) : Except Err Unit :=
  tasks.forM fun task => task.dependsOn.forM fun dep =>
    if dep ∈ ids then pure ()
    else invalid ("task " ++ task.id ++ " depends on unknown task " ++ quoted dep)

def validate (plan : Plan) : Except Err Plan := do
  let goal := trimSpace plan.goal
  if goal = "" then invalid "goal is required"
  if plan.tasks = [] then invalid "at least one task is required"
  let strategy ← validateStrategy plan.strategy
  let failurePolicy ← validateFailurePolicy plan.failurePolicy
  let tasks ← validateTasks 0 [] plan.tasks
  let ids := tasks.map Task.id
  validateDependencies ids tasks
  let finalTask := trimSpace plan.finalTask
  let finalTask := if finalTask = "" then ids.getLastD "" else finalTask
  if finalTask ∉ ids then invalid ("final_task " ++ quoted finalTask ++ " not found")
  let activeTask := trimSpace plan.activeTask
  if activeTask ≠ "" ∧ activeTask ∉ ids then
    invalid ("active_task " ++ quoted activeTask ++ " not found")
  return { plan with
    goal, strategy, failurePolicy, tasks, finalTask, activeTask
    summary := trimSpace plan.summary }

end Hopclaw.Planner
