import Hopclaw.Agent.PlanExecutor

/-! # Planning a run

`ensurePlan` (`agent/planning.go`) and the recovery that drops a plan
(`agent/component_recovery.go`). What the planner proposes is an argument: the plan it returned, or
none where it failed. -/

namespace Hopclaw

open GoStrings Planner

/-! ## Compaction

A final task without a title and a goal of its own is merged into the one it depends on
(`agent/planning_compaction.go`). -/

def containsString (items : List String) (target : String) : Bool :=
  items.any fun item => trimSpace item = trimSpace target

def appendUniqueStrings (dst items : List String) : List String :=
  items.foldl (fun dst item =>
    let item := trimSpace item
    if item = "" || containsString dst item then dst else dst ++ [item]) dst

def isCompactionCandidate (task : Task) : Bool :=
  (task.kind = .deliver || task.kind = .unset) &&
    trimSpace task.title = "" && trimSpace task.goal = ""

def hasDistinctExecutionBoundary (task parent : Task) : Bool :=
  task.requiredCapabilities ≠ [] || task.outputs.any fun o => !containsString parent.outputs o

def replacedDependencies (fromID toID : String) (deps : List String) : List String :=
  deps.foldl (fun updated dep =>
    let dep := if trimSpace dep = fromID then toID else dep
    if dep = "" || containsString updated dep then updated else updated ++ [dep]) []

def replaceTaskDependency (plan : Plan) (fromID toID : String) : Plan :=
  if fromID = "" || toID = "" || fromID = toID then plan
  else
    { plan with
      tasks := plan.tasks.map fun t =>
        if t.id = fromID || t.dependsOn = [] then t
        else { t with dependsOn := replacedDependencies fromID toID t.dependsOn } }

/-- The plan without its final task and `true`, or the plan as it is and `false`. -/
def compactFinalDeliverWrapper (plan : Plan) : Plan × Bool :=
  if plan.tasks.length < 2 then (plan, false)
  else
    match plan.findTask (trimSpace plan.finalTask) with
    | none => (plan, false)
    | some finalTask =>
      if !isCompactionCandidate finalTask then (plan, false)
      else
        match finalTask.dependsOn with
        | [parentID] =>
          match plan.findIdx parentID, plan.findTask parentID with
          | some i, some parent =>
            if hasDistinctExecutionBoundary finalTask parent then (plan, false)
            else
              let plan := plan.setTask i fun t =>
                { t with
                  outputs := appendUniqueStrings t.outputs finalTask.outputs
                  requiredCapabilities :=
                    appendUniqueStrings t.requiredCapabilities finalTask.requiredCapabilities
                  verificationHints :=
                    appendUniqueStrings t.verificationHints finalTask.verificationHints }
              let plan := replaceTaskDependency plan finalTask.id parent.id
              let tasks := plan.tasks.filter fun t => t.id ≠ finalTask.id
              ({ plan with
                tasks
                finalTask := parent.id
                strategy := if tasks.length = 1 then .serial else plan.strategy }, true)
          | _, _ => (plan, false)
        | _ => (plan, false)

/-- Each compaction takes a task away. -/
def compactLoop : ℕ → Plan → Plan
  | 0, plan => plan
  | fuel + 1, plan =>
    if (compactFinalDeliverWrapper plan).2 then
      compactLoop fuel (compactFinalDeliverWrapper plan).1
    else plan

def compactPlanForExecution (plan : Plan) : Plan :=
  if plan.tasks = [] then plan else (compactLoop plan.tasks.length plan).normalizeExecution

/-! ## Planning -/

def trivialPlan (goal : String) : Plan :=
  let goal := if trimSpace goal = "" then "Continue the current task." else trimSpace goal
  { goal, summary := goal, strategy := .serial, finalTask := "task_1"
    tasks := [{ id := "task_1", kind := .execute, goal, outputs := ["result"] }] }

variable (sha1Hex : String → String)

/-- The plan is put into the run and the graph rebuilt for it, out of the graph of the plan
    before. -/
def installPlan (run : PlannedRun) (plan : Plan) : PlannedRun :=
  ensureExecutionGraph sha1Hex { run with plan := some plan.normalizeExecution }

/-- What planning makes of the planner's proposal. -/
def newPlan (planned : Option Plan) (request : String) : Plan :=
  compactPlanForExecution (planned.getD (trivialPlan request))

/-- `ensurePlan` for a run that uses the planner; `request` is the text a plan of one task is made
    of where there is no other. The hints and warnings added to the plan are not modelled. -/
def ensurePlan (run : PlannedRun) (force : Bool) (planned : Option Plan) (request : String) :
    PlannedRun :=
  if run.plan.isSome && !force then run
  else installPlan sha1Hex run (newPlan planned request)

/-- The effect of `tryRecoverFailedPlan` on the plan. -/
def dropPlan (run : PlannedRun) : PlannedRun :=
  clearExecutionGraph { run with plan := none }

/-! ## Planning and executing in turns -/

/-- The plan in the model's answer: none if it has none, or one that `Validate` refuses. -/
def parsedPlan (answer : Option Plan) : Option Plan :=
  answer.bind fun raw => (validate raw).toOption

inductive PlanningStep
  /-- `ensurePlan`, forced after the user has steered the run, with what the model answers. -/
  | ensurePlan (force : Bool) (answer : Option Plan) (request : String)
  | tryRecoverFailedPlan
  | execute (s : LoopStep)

/-- The executor's loop over whole generations of plans. It plans and recovers only where no batch
    is in flight. -/
def PlanLoop.advance (l : PlanLoop) : PlanningStep → PlanLoop
  | .ensurePlan force answer request =>
    if l.inFlight = [] then
      { l with run := Hopclaw.ensurePlan sha1Hex l.run force (parsedPlan answer) request }
    else l
  | .tryRecoverFailedPlan => if l.inFlight = [] then { l with run := dropPlan l.run } else l
  | .execute s => l.step sha1Hex s

end Hopclaw
