import Hopclaw.Text.GoStrings

/-! # Plan state

The task graph of a planned run and the operations `planner/state.go` performs on it. A plan is
edited in place there; here each operation returns the edited plan. A task is found by the *first*
entry with its id, so an operation addressed to a repeated id reaches the first one only. -/

namespace Hopclaw.Planner

open GoStrings

/-- A task's status. It is a free string in the source: `unset` is the empty one, `unknown` any
    text that is none of the named statuses. -/
inductive TaskStatus
  | unset | queued | running | completed | failed | cancelled | skipped
  | unknown (text : String)
deriving DecidableEq

def TaskStatus.terminal : TaskStatus → Bool
  | .completed | .failed | .skipped | .cancelled => true
  | _ => false

/-- `AllowedTaskTransitions`: a status that is not one of the six has no entry. -/
def allowedTaskTransitions : TaskStatus → List TaskStatus
  | .queued => [.running, .skipped, .cancelled]
  | .running => [.completed, .failed, .skipped, .cancelled]
  | _ => []

def validTaskTransition (src dst : TaskStatus) : Bool :=
  dst ∈ allowedTaskTransitions src

/-- What `NormalizeExecution` makes of a status: whatever is not a named one becomes `queued`. -/
def TaskStatus.normalize : TaskStatus → TaskStatus
  | .unknown _ => .queued
  | .unset => .queued
  | s => s

/-- A task's kind, free text like the status. -/
inductive TaskKind
  | unset | research | translate | transform | write | execute | review | deliver
  | unknown (text : String)
deriving DecidableEq

inductive Strategy
  | unset | serial | parallel | mixed
  | unknown (text : String)
deriving DecidableEq

inductive FailurePolicy
  | unset | failFast | continueOnError
  | unknown (text : String)
deriving DecidableEq

structure Task where
  id : String
  title : String := ""
  kind : TaskKind := .unset
  goal : String := ""
  dependsOn : List String := []
  outputs : List String := []
  requiredCapabilities : List String := []
  verificationHints : List String := []
  status : TaskStatus := .unset
  resultSummary : String := ""
  error : String := ""
deriving DecidableEq

structure Plan where
  goal : String := ""
  summary : String := ""
  strategy : Strategy := .unset
  failurePolicy : FailurePolicy := .unset
  tasks : List Task
  finalTask : String := ""
  activeTask : String := ""
  runningTasks : List String := []
deriving DecidableEq

namespace Plan

variable (plan : Plan)

/-! ## Lookups -/

/-- Position of the first task with this id; no task has a blank id. -/
def findIdx (id : String) : Option ℕ :=
  if trimSpace id = "" then none else plan.tasks.findIdx? fun t => t.id = id

def findTask (id : String) : Option Task :=
  if trimSpace id = "" then none else plan.tasks.find? fun t => t.id = id

def running : List Task :=
  plan.tasks.filter fun t => t.status = .running

def incomplete : List Task :=
  plan.tasks.filter fun t => !t.status.terminal

/-- The plan is over: no task is left that could still change. A plan without tasks is. -/
def terminal : Bool :=
  plan.tasks.all fun t => t.status.terminal

def isDone : Bool :=
  plan.tasks.all fun t => t.status = .completed

/-! ## Ready tasks -/

def depCompleted (dep : String) : Bool :=
  match plan.findTask dep with
  | some d => d.status = .completed
  | none => false

def depsCompleted (task : Task) : Bool :=
  task.dependsOn.all plan.depCompleted

def readyTasks : List Task :=
  plan.tasks.filter fun t => t.status = .queued && plan.depsCompleted t

/-! ## Normalization -/

def isRunning (id : String) : Bool :=
  match plan.findTask id with
  | some t => t.status = .running
  | none => false

def normalizeExecution : Plan :=
  let tasks := plan.tasks.map fun t =>
    { t with
      resultSummary := trimSpace t.resultSummary
      error := trimSpace t.error
      status := t.status.normalize }
  let plan := { plan with tasks, activeTask := trimSpace plan.activeTask }
  { plan with
    activeTask := if plan.activeTask ≠ "" && !plan.isRunning plan.activeTask then ""
      else plan.activeTask
    runningTasks := plan.runningTasks.filter plan.isRunning }

/-! ## Mutations -/

def appendUnique (slice : List String) (val : String) : List String :=
  if val ∈ slice then slice else slice ++ [val]

def removeString (slice : List String) (val : String) : List String :=
  slice.filter fun s => s ≠ val

def setTask (i : ℕ) (f : Task → Task) : Plan :=
  { plan with tasks := plan.tasks.modify i f }

def markRunning (ids : List String) : Plan :=
  let plan := ids.foldl (fun (plan : Plan) id =>
    match plan.findIdx id, plan.findTask id with
    | some i, some t =>
      if t.status = .queued then
        { plan.setTask i fun t => { t with status := .running, error := "" } with
          runningTasks := appendUnique plan.runningTasks id }
      else plan
    | _, _ => plan) plan
  if plan.activeTask = "" then { plan with activeTask := plan.runningTasks.headD "" } else plan

/-- Take `id` out of the running set; the legacy active task moves on to the next running one. -/
def releaseRunning (id : String) : Plan :=
  let runningTasks := removeString plan.runningTasks id
  { plan with
    runningTasks
    activeTask := if plan.activeTask = id then runningTasks.headD "" else plan.activeTask }

/-- The shape of `MarkCompleted` and `MarkFailed`: a task that is not running is left alone, and
    an id without a task is still taken out of the running set. -/
def markFinished (id : String) (f : Task → Task) : Plan :=
  match plan.findIdx id, plan.findTask id with
  | some i, some t => if t.status ≠ .running then plan else (plan.setTask i f).releaseRunning id
  | _, _ => plan.releaseRunning id

def markCompleted (id summary : String) : Plan :=
  plan.markFinished id fun t =>
    { t with status := .completed, error := "", resultSummary := trimSpace summary }

def markFailed (id errMsg : String) : Plan :=
  plan.markFinished id fun t => { t with status := .failed, error := trimSpace errMsg }

/-- Unlike the two above, this always edits the running set and never moves the active task on. -/
def markSkipped (id reason : String) : Plan :=
  let edited : Plan :=
    match plan.findIdx id, plan.findTask id with
    | some i, some t =>
      if t.status = .queued || t.status = .running then
        plan.setTask i fun t => { t with status := .skipped, error := trimSpace reason }
      else plan
    | _, _ => plan
  { edited with
    runningTasks := removeString edited.runningTasks id
    activeTask := if edited.activeTask = id then "" else edited.activeTask }

/-- A dependency that exists and has failed or was skipped. -/
def brokenDep (dep : String) : Bool :=
  match plan.findTask dep with
  | some d => d.status = .failed || d.status = .skipped
  | none => false

/-- The body of the inner loop of `SkipDependentsOf` at task `i`: the plan and whether it
    changed. -/
def skipAt (i : ℕ) : Plan × Bool :=
  match plan.tasks[i]? with
  | none => (plan, false)
  | some t =>
    if t.status ≠ .queued then (plan, false)
    else
      match t.dependsOn.find? plan.brokenDep with
      | none => (plan, false)
      | some dep =>
        (plan.setTask i fun t =>
          { t with status := .skipped, error := "dependency " ++ dep ++ " failed" }, true)

def skipPass : Plan × Bool :=
  (List.range plan.tasks.length).foldl
    (fun acc i => ((acc.1.skipAt i).1, acc.2 || (acc.1.skipAt i).2)) (plan, false)

/-- Passes until one changes nothing. A pass that changes something turns a queued task into a
    skipped one, so the number of tasks bounds the number of such passes. -/
def skipLoop : ℕ → Plan → Plan
  | 0, plan => plan
  | fuel + 1, plan => if plan.skipPass.2 then skipLoop fuel plan.skipPass.1 else plan.skipPass.1

/-- The id is not used: the loop propagates from every failed or skipped task. -/
def skipDependentsOf (_failedID : String) : Plan :=
  skipLoop (plan.tasks.length + 1) plan

def cancelRunning (reason : String) : Plan :=
  { plan with
    tasks := plan.tasks.map fun t =>
      if t.status = .running then { t with status := .cancelled, error := trimSpace reason } else t
    runningTasks := []
    activeTask := "" }

end Plan

end Hopclaw.Planner
