import Hopclaw.Policy.Engine
import Hopclaw.Text.ShellWords
import Hopclaw.Tools.Input

/-! # The exec tools

What `exec.run`, `exec.shell` and `exec.script` start (`toolruntime/exec/exec.go`). The working
directory, the timeout and the exec constraints of the runtime can only refuse a call; they are one
argument here. -/

namespace Hopclaw.Tools

open GoStrings Policy

/-! ## What is started -/

inductive Invocation
  /-- A program with its arguments, without a shell. -/
  | command (name : String) (args : List String)
  /-- A shell with `-c` and a text. -/
  | shell (shell text : String)
  /-- An interpreter on a file with a text. -/
  | script (interpreter text : String)
deriving DecidableEq

variable (checks : List (String × Value) → Except Err Unit)

def handleRun (input : List (String × Value)) : Except Err Invocation := do
  let name ← requiredString input "command"
  let args ← (stringSliceFrom (Value.index input "args")).mapError fun err =>
    ⟨"invalid exec.run args: " ++ err.text, err.sentinel⟩
  checks input
  return .command name args

/-- `envShell` is the environment's `SHELL`. -/
def handleShell (envShell : String) (input : List (String × Value)) : Except Err Invocation := do
  let text ← requiredString input "command"
  checks input
  return .shell (if envShell ≠ "" then envShell else "/bin/sh") text

/-- The field `command` is not read. -/
def handleScript (input : List (String × Value)) : Except Err Invocation := do
  let text ← (requiredString input "script").mapError fun err =>
    ⟨"exec.script: " ++ err.text, err.sentinel⟩
  let interpreter := match stringFrom (Value.index input "interpreter") with
    | .ok s => s
    | .error _ => ""
  checks input
  return .script (if trimSpace interpreter = "" then "/bin/sh" else interpreter) text

/-- What a call of one of the exec tools starts. -/
def invocation (envShell : String) (call : ToolContext) : Except Err Invocation :=
  let tool := normalizeToolName call.toolName
  if tool = "exec.run" then handleRun checks call.input
  else if tool = "exec.shell" then handleShell checks envShell call.input
  else if tool = "exec.script" then handleScript checks call.input
  else failure ("unknown tool " ++ call.toolName)

/-- The words of the command that an invocation executes, where it is one simple command. -/
def Invocation.words : Invocation → Option (List String)
  | .command name args => some (name :: args)
  | .shell _ text => ShellWords.scan text
  | .script _ text => ShellWords.scan text

/-- The arguments give `env` a program to run: what is left after its options and assignments. An
    option other than these (`-S` splits a text into a command) counts as naming one. -/
def envRunsProgram : Bool → List String → Bool
  | _, [] => false
  | true, _ :: rest => envRunsProgram false rest
  | false, w :: rest =>
    if w ∈ ["-", "--", "-i", "-0", "-v", "--ignore-environment", "--null", "--debug"] then
      envRunsProgram false rest
    else if w ∈ ["-u", "--unset", "-C", "--chdir"] then envRunsProgram true rest
    else if hasPrefix w "--unset=" || hasPrefix w "--chdir=" then envRunsProgram false rest
    else if hasPrefix w "-" then true
    else if contains w "=" then envRunsProgram false rest
    else true

end Hopclaw.Tools
