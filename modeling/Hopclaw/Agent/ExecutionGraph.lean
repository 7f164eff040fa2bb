import Hopclaw.Planner.Validate
import Mathlib.Data.List.Sort

/-! # Execution graphs

What the executor keeps about the tasks of a run's plan beside the plan itself
(`agent/execution_graph.go`): which resources a task touches and how, how often it was tried and
what came of it. The graph is rebuilt from the plan at many places and carries the metadata of a
task over from the graph before, by the task's id. -/

namespace Hopclaw

open GoStrings Planner

inductive MergeStrategy
  | unset | taskOrder | serialOnly
deriving DecidableEq

inductive SideEffectScope
  | unset | readOnly | workspace | sessionAll
deriving DecidableEq

/-- The fields of an outcome that the graph operations write themselves. -/
structure TaskOutcome where
  taskID : String
  status : TaskStatus := .unset
  attempt : ℕ := 0
  summary : String := ""
  error : Option String := none
  mergeStrategy : MergeStrategy := .unset
  idempotencyKey : String := ""
deriving DecidableEq

structure ExecutionTask where
  id : String
  title : String := ""
  kind : TaskKind := .unset
  goal : String := ""
  dependsOn : List String := []
  resourceKeys : List String := []
  sideEffectScope : SideEffectScope := .unset
  mergeStrategy : MergeStrategy := .unset
  idempotencyKey : String := ""
  status : TaskStatus := .unset
  attemptCount : ℕ := 0
  lastOutcome : Option TaskOutcome := none
deriving DecidableEq

structure ExecutionGraph where
  runID : String := ""
  sessionID : String := ""
  mergeStrategy : MergeStrategy := .unset
  tasks : List ExecutionTask := []
deriving DecidableEq

/-- The part of a run that planning and the selection of tasks work on. -/
structure PlannedRun where
  id : String
  sessionID : String
  plan : Option Plan := none
  executionGraph : Option ExecutionGraph := none
deriving DecidableEq

/-! ## The metadata of a task -/

def normalizeExecutionStrings (values : List String) : List String :=
  (dedupeStrings values).insertionSort (· ≤ ·)

def normalizeExecutionTask (task : ExecutionTask) : ExecutionTask :=
  { task with
    id := trimSpace task.id
    title := trimSpace task.title
    goal := trimSpace task.goal
    dependsOn := normalizeExecutionStrings task.dependsOn
    resourceKeys := normalizeExecutionStrings task.resourceKeys
    idempotencyKey := trimSpace task.idempotencyKey
    mergeStrategy := if task.mergeStrategy = .unset then .taskOrder else task.mergeStrategy
    sideEffectScope := if task.sideEffectScope = .unset then .readOnly else task.sideEffectScope
    status := if task.status = .unset then .queued else task.status }

/-- Research, review and translation: the kinds that change nothing. -/
def readOnlyKind : TaskKind → Bool
  | .research | .review | .translate => true
  | _ => false

def executionTaskResourceKeys (task : Task) : List String :=
  let keys := (task.outputs.filter fun o => trimSpace o ≠ "").map fun o => "output:" ++ trimSpace o
  normalizeExecutionStrings
    (if keys = [] && !readOnlyKind task.kind then ["session:mutable_state"] else keys)

def executionTaskSideEffectScope (task : Task) : SideEffectScope :=
  match task.kind with
  | .research | .review | .translate => .readOnly
  | .transform | .write | .execute => .workspace
  | _ => .sessionAll

def executionTaskMergeStrategy (task : Task) : MergeStrategy :=
  match task.kind with
  | .deliver => .serialOnly
  | _ => .taskOrder

def TaskKind.text : TaskKind → String
  | .unset => ""
  | .research => "research"
  | .translate => "translate"
  | .transform => "transform"
  | .write => "write"
  | .execute => "execute"
  | .review => "review"
  | .deliver => "deliver"
  | .unknown text => text

variable (sha1Hex : String → String)
variable (run : PlannedRun)

def executionTaskIdempotencyKey (task : Task) : String :=
  "task:" ++ sha1Hex (join "\n" [trimSpace task.id, TaskKind.text task.kind, trimSpace task.goal,
    trimSpace run.id, trimSpace run.sessionID])

def executionTaskFromPlanTask (task : Task) : ExecutionTask :=
  normalizeExecutionTask
    { id := trimSpace task.id
      title := trimSpace task.title
      kind := task.kind
      goal := trimSpace task.goal
      dependsOn := task.dependsOn
      resourceKeys := executionTaskResourceKeys task
      sideEffectScope := executionTaskSideEffectScope task
      mergeStrategy := executionTaskMergeStrategy task
      idempotencyKey := executionTaskIdempotencyKey sha1Hex run task
      status := if task.status = .unset then .queued else task.status }

/-! ## Building the graph -/

namespace ExecutionGraph

/-- `executionGraphTask`: the first entry with this id. -/
def task? (graph : ExecutionGraph) (id : String) : Option ExecutionTask :=
  if trimSpace id = "" then none else graph.tasks.find? fun t => t.id = id

def setTask (graph : ExecutionGraph) (id : String) (f : ExecutionTask → ExecutionTask) :
    ExecutionGraph :=
  if trimSpace id = "" then graph
  else
    match graph.tasks.findIdx? fun t => t.id = id with
    | some i => { graph with tasks := graph.tasks.modify i f }
    | none => graph

/-- `existingByID`: the last entry with an id counts. -/
def previous? (graph : ExecutionGraph) (id : String) : Option ExecutionTask :=
  ((graph.tasks.reverse.find? fun t => trimSpace t.id ≠ "" && trimSpace t.id = id)).map
    normalizeExecutionTask

end ExecutionGraph

/-- What a task takes over from the entry of the same id in the graph before. -/
def carryOver (task previous : ExecutionTask) : ExecutionTask :=
  { task with
    attemptCount := previous.attemptCount
    lastOutcome := previous.lastOutcome
    resourceKeys := if previous.resourceKeys ≠ [] then previous.resourceKeys else task.resourceKeys
    sideEffectScope :=
      if previous.sideEffectScope ≠ .unset then previous.sideEffectScope else task.sideEffectScope
    mergeStrategy :=
      if previous.mergeStrategy ≠ .unset then previous.mergeStrategy else task.mergeStrategy
    idempotencyKey :=
      if trimSpace previous.idempotencyKey ≠ "" then trimSpace previous.idempotencyKey
      else task.idempotencyKey }

def buildExecutionTask (existing : Option ExecutionGraph) (planTask : Task) : ExecutionTask :=
  let task := executionTaskFromPlanTask sha1Hex run planTask
  match existing.bind fun g => g.previous? task.id with
  | some previous => carryOver task previous
  | none => task

/-- The graph of a plan that is already normalized. -/
def buildExecutionGraph (plan : Plan) (existing : Option ExecutionGraph) : ExecutionGraph :=
  { runID := trimSpace run.id
    sessionID := trimSpace run.sessionID
    mergeStrategy :=
      match existing with
      | some g => if g.mergeStrategy ≠ .unset then g.mergeStrategy else .taskOrder
      | none => .taskOrder
    tasks := plan.tasks.map (buildExecutionTask sha1Hex run existing) }

/-- The plan is normalized and the graph rebuilt. -/
def ensureExecutionGraph : PlannedRun :=
  match run.plan with
  | none => run
  | some plan =>
    let plan := plan.normalizeExecution
    { run with
      plan := some plan
      executionGraph := some (buildExecutionGraph sha1Hex run plan run.executionGraph) }

def clearExecutionGraph : PlannedRun :=
  { run with executionGraph := none }

/-! ## Selecting a batch -/

def executionTaskHasUnknownMutableScope (task : ExecutionTask) : Bool :=
  task.sideEffectScope ≠ .readOnly && task.resourceKeys = []

def executionTasksShareResourceKey (left right : List String) : Bool :=
  right.any fun key => trimSpace key ∈ left.map trimSpace

def executionTasksConflict (a b : ExecutionTask) : Bool :=
  if a.id = "" || b.id = "" || a.id = b.id then false
  else if a.mergeStrategy = .serialOnly || b.mergeStrategy = .serialOnly then true
  else if a.sideEffectScope = .sessionAll || b.sideEffectScope = .sessionAll then true
  else if executionTaskHasUnknownMutableScope a || executionTaskHasUnknownMutableScope b then true
  else if !executionTasksShareResourceKey a.resourceKeys b.resourceKeys then false
  else a.sideEffectScope ≠ .readOnly || b.sideEffectScope ≠ .readOnly

/-- The metadata the selection goes by: the graph's, or else what the plan's task gives. -/
def batchMetadata (graph : ExecutionGraph) (task : Task) : ExecutionTask :=
  match graph.task? task.id with
  | some existing => normalizeExecutionTask existing
  | none => executionTaskFromPlanTask sha1Hex run task

/-- The graph is rebuilt on the way. -/
def executionMetadataForTask (task : Task) : ExecutionTask :=
  let run := ensureExecutionGraph sha1Hex run
  match run.executionGraph with
  | some graph => batchMetadata sha1Hex run graph task
  | none => executionTaskFromPlanTask sha1Hex run task

/-- The loop over the ready tasks, with what is selected so far and its metadata. -/
def selectLoop (run : PlannedRun) (graph : ExecutionGraph) :
    List Task → List Task → List ExecutionTask → List Task
  | [], selected, _ => selected
  | task :: rest, selected, selectedMeta =>
    let entry := batchMetadata sha1Hex run graph task
    if selectedMeta.any fun other => executionTasksConflict entry other then
      selectLoop run graph rest selected selectedMeta
    else if entry.mergeStrategy = .serialOnly then selected ++ [task]
    else selectLoop run graph rest (selected ++ [task]) (selectedMeta ++ [entry])

/-- `selectExecutionBatch`; the graph is rebuilt on the way. -/
def selectExecutionBatch (ready : List Task) : PlannedRun × List Task :=
  if ready.length ≤ 1 then (run, ready)
  else
    let run := ensureExecutionGraph sha1Hex run
    match run.executionGraph, run.plan with
    | some graph, some plan =>
      if plan.strategy = .serial then (run, ready)
      else
        let selected := selectLoop sha1Hex run graph ready [] []
        (run, if selected = [] then ready.take 1 else selected)
    | _, _ => (run, ready)

end Hopclaw
