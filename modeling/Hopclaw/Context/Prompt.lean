import Hopclaw.Domain.Floats
import Hopclaw.Store.SessionStore

/-! # The messages of a prompt

Which messages of a session the sliding window engine sends to the model
(`contextengine/engine_prepare.go`, `engine_prompt.go`, `engine_budgeting.go`): a window of them is
selected, messages are dropped until the rest fits the budget, and calls and answers of tools that
lost their partner are repaired. The system prompt, the summary and the token budgets are computed
elsewhere and are arguments here. -/

namespace Hopclaw.Context

open GoStrings Store FloatOps

structure ToolCallRef where
  id : String
  name : String := ""
  arguments : String := ""
deriving DecidableEq

/-- A message with its tool fields. -/
structure PromptMessage extends Message (List (String × Value)) where
  name : String := ""
  toolCallID : String := ""
  toolCalls : List ToolCallRef := []

/-- `TextContent`: the text blocks take precedence. -/
def PromptMessage.textContent (m : PromptMessage) : String :=
  if m.contentBlocks = [] then m.content
  else join "" ((m.contentBlocks.filter fun b => b.type = .text && b.text ≠ "").map
    ContentBlock.text)

structure TokenEstimator where
  estimate : String → ℤ
  estimateMessages : List PromptMessage → ℤ

structure Config where
  keepFirstN : ℤ := 0
  keepLastN : ℤ := 0
  estimator : TokenEstimator

/-- The engine: both ends of the window have a size, the last one is not empty. -/
structure SlidingWindowEngine where
  keepFirstN : ℕ
  keepLastN : ℕ
  keepLastN_pos : 0 < keepLastN
  estimator : TokenEstimator

def newSlidingWindowEngine (cfg : Config) : SlidingWindowEngine where
  keepFirstN := cfg.keepFirstN.toNat
  keepLastN := if cfg.keepLastN ≤ 0 then 20 else cfg.keepLastN.toNat
  keepLastN_pos := by
    split_ifs
    · exact Nat.succ_pos 19
    · omega
  estimator := cfg.estimator

/-! ## The window -/

def SlidingWindowEngine.selectMessages (e : SlidingWindowEngine) (messages : List PromptMessage) :
    List PromptMessage :=
  if messages.length ≤ e.keepFirstN + e.keepLastN then messages
  else
    messages.take e.keepFirstN ++
      messages.drop (max (messages.length - e.keepLastN) e.keepFirstN)

/-! ## The budget -/

section Importance

variable {F : Type} [FloatOps F]

def clampMessageImportanceAdjustment (value : F) : F :=
  if lt (lit (1 / 4)) value then lit (1 / 4)
  else if lt value (lit (-1 / 4)) then lit (-1 / 4)
  else value

/-- A number is read from the text it is printed as. -/
def messageImportanceAdjustment (parseFloat : String → Option F) (m : PromptMessage) : F :=
  let adjust (text : String) : F :=
    match parseFloat text with
    | none => lit 0
    | some value => clampMessageImportanceAdjustment value
  match Value.index m.metadata "message_importance" with
  | .number text => adjust text
  | .str text => adjust (trimSpace text)
  | _ => lit 0

def failureWords : List String :=
  ["ERROR", "FAIL", "EXCEPTION", "PANIC", "DENIED", "TIMEOUT", "REFUSED", "NOT FOUND", "FATAL"]

/-- Later messages count more, tool results least, failures more than other results. -/
def messageImportance (parseFloat : String → Option F) (m : PromptMessage) (idx total : ℕ) : F :=
  let score : F :=
    if total > 1 then
      add (lit 0) (mul (div (lit idx) (lit (total - 1))) (lit (1 / 2)))
    else lit 0
  let score :=
    match m.role with
    | .user => add score (lit (7 / 20))
    | .assistant => add score (lit (1 / 4))
    | .tool => add score (lit (1 / 20))
    | .system => score
  let score := add score (messageImportanceAdjustment parseFloat m)
  if m.role = .tool && failureWords.any fun kw => contains (toUpper m.textContent) kw then
    add score (lit (3 / 20))
  else score

variable (e : SlidingWindowEngine) (importance : PromptMessage → ℕ → ℕ → F)

/-- The first message from `idx` on with the least importance, given the least one before. -/
def leastImportant (total : ℕ) : List PromptMessage → ℕ → ℕ → F → ℕ
  | [], _, dropIdx, _ => dropIdx
  | m :: rest, idx, dropIdx, minScore =>
    let score := importance m idx total
    if lt score minScore then leastImportant total rest (idx + 1) idx score
    else leastImportant total rest (idx + 1) dropIdx minScore

/-- The index of the message that is dropped next. -/
def SlidingWindowEngine.dropIndex (messages : List PromptMessage) : ℕ :=
  let start := if e.keepFirstN ≥ messages.length then 0 else e.keepFirstN
  match messages.drop start with
  | [] => start
  | m :: rest =>
    leastImportant importance messages.length rest (start + 1) start
      (importance m start messages.length)

/-- Each round of the loop drops one message, so there are at most as many rounds as messages. -/
def SlidingWindowEngine.trimLoop (systemPrompt summary : String) (maxInput : ℤ) :
    ℕ → List PromptMessage → List PromptMessage
  | 0, messages => messages
  | rounds + 1, messages =>
    let total := e.estimator.estimate systemPrompt +
      (if summary ≠ "" then e.estimator.estimate summary else 0) +
      e.estimator.estimateMessages messages
    if messages = [] ∨ total ≤ maxInput then messages
    else trimLoop systemPrompt summary maxInput rounds
      (messages.eraseIdx (e.dropIndex importance messages))

def SlidingWindowEngine.trimMessagesToBudget (systemPrompt summary : String)
    (messages : List PromptMessage) (maxInput : ℤ) : List PromptMessage :=
  e.trimLoop importance systemPrompt summary maxInput messages.length messages

end Importance

/-! ## Tool calls and their answers -/

/-- The part of a made-up id that comes from the tool's name. -/
def sanitizeToolCallIDPart (name : String) : String :=
  let kept := (trimSpace (toLower name)).toList.filterMap fun ch =>
    if ('a' ≤ ch && ch ≤ 'z') || ('0' ≤ ch && ch ≤ '9') then some ch
    else if ch = '.' || ch = '-' || ch = '_' then some '_'
    else none
  if kept = [] then "tool" else String.ofList kept

/-- `normalizeToolCalls` of the package `agent`, which a model's calls pass before they are stored:
    a call without an id gets one from the tool's name and its place among the calls of the turn. -/
def normalizeToolCalls (calls : List ToolCallRef) : List ToolCallRef :=
  calls.zipIdx.filterMap fun (call, i) =>
    let name := trimSpace call.name
    if name = "" then none
    else
      let id := trimSpace call.id
      some { call with
        name
        id := if id = "" then
            "call_" ++ sanitizeToolCallIDPart name ++ "_" ++ toString (i + 1)
          else id }

def maxSyntheticToolResponses : ℕ := 20

/-- The ids an assistant message calls. -/
def PromptMessage.calls (m : PromptMessage) : List String :=
  if m.role = .assistant then m.toolCalls.map ToolCallRef.id else []

def PromptMessage.Answers (m : PromptMessage) (id : String) : Prop :=
  m.role = .tool ∧ m.toolCallID = id

instance (m : PromptMessage) (id : String) : Decidable (m.Answers id) :=
  inferInstanceAs (Decidable (_ ∧ _))

/-- The first two loops of `repairOrphanedToolCalls`: answers to ids that are not called go. -/
def cleanMessages (messages : List PromptMessage) : List PromptMessage :=
  let calledIDs := messages.flatMap PromptMessage.calls
  messages.filter fun m => !(m.role = .tool && m.toolCallID ≠ "" && m.toolCallID ∉ calledIDs)

/-- The answer that stands in for a missing one. -/
def syntheticResponse (m : PromptMessage) (tc : ToolCallRef) : PromptMessage where
  role := .tool
  content := "[pending: tool call awaiting approval or execution]"
  createdAt := m.createdAt
  metadata := []
  name := tc.name
  toolCallID := tc.id

/-- The calls of one message: an id without an answer, here or later, gets one, as long as there are
    not too many. -/
def answerCalls (m : PromptMessage) (later : List PromptMessage) :
    List ToolCallRef → List String → ℕ → List PromptMessage × List String × ℕ
  | [], responded, syntheticCount => ([], responded, syntheticCount)
  | tc :: rest, responded, syntheticCount =>
    if tc.id ∈ responded ∨ (∃ l ∈ later, l.Answers tc.id) ∨
        syntheticCount ≥ maxSyntheticToolResponses then
      answerCalls m later rest responded syntheticCount
    else
      let (out, responded, syntheticCount) :=
        answerCalls m later rest (tc.id :: responded) (syntheticCount + 1)
      (syntheticResponse m tc :: out, responded, syntheticCount)

/-- The last loop of `repairOrphanedToolCalls`. -/
def repairLoop : List PromptMessage → List String → ℕ → List PromptMessage
  | [], _, _ => []
  | m :: later, responded, syntheticCount =>
    let calls := if m.role = .assistant then m.toolCalls else []
    let (out, responded, syntheticCount) := answerCalls m later calls responded syntheticCount
    m :: (out ++ repairLoop later responded syntheticCount)

/-- The ids that have an answer somewhere. -/
def respondedIDs (messages : List PromptMessage) : List String :=
  (messages.filter fun m => m.role = .tool && m.toolCallID ≠ "").map PromptMessage.toolCallID

def repairOrphanedToolCalls (messages : List PromptMessage) : List PromptMessage :=
  let cleaned := cleanMessages messages
  repairLoop cleaned (respondedIDs cleaned) 0

/-! ## The prompt -/

/-- The summary of the session goes in front. -/
def withSummary (now : Time) (summary : String) (selected : List PromptMessage) :
    List PromptMessage :=
  if trimSpace summary ≠ "" then
    { role := .system
      content := trimSpace summary
      createdAt := now
      metadata := []
      name := "session-summary" } :: selected
  else selected

def composeMessages (now : Time) (summary : String) (selected : List PromptMessage) :
    List PromptMessage :=
  repairOrphanedToolCalls (withSummary now summary selected)

/-- What `Prepare` computes the messages from, beside the session's messages. -/
structure PromptInputs where
  systemPrompt : String := ""
  summaryPrompt : String := ""
  /-- The parts of the budget plan for recent messages and for knowledge. -/
  recentMessages : ℤ
  knowledge : ℤ
  maxInput : ℤ
  now : Time := 0

/-- The messages `Prepare` selects. -/
def SlidingWindowEngine.selected {F : Type} [FloatOps F] (e : SlidingWindowEngine)
    (parseFloat : String → Option F) (p : PromptInputs) (messages : List PromptMessage) :
    List PromptMessage :=
  let selected :=
    if p.recentMessages ≤ 0 then []
    else e.trimMessagesToBudget (messageImportance parseFloat) "" p.summaryPrompt
      (e.selectMessages messages)
      (p.recentMessages + p.knowledge + e.estimator.estimate p.summaryPrompt)
  e.trimMessagesToBudget (messageImportance parseFloat) p.systemPrompt p.summaryPrompt selected
    p.maxInput

/-- The messages `Prepare` sends. -/
def SlidingWindowEngine.prepareMessages {F : Type} [FloatOps F] (e : SlidingWindowEngine)
    (parseFloat : String → Option F) (p : PromptInputs) (messages : List PromptMessage) :
    List PromptMessage :=
  composeMessages p.now p.summaryPrompt (e.selected parseFloat p messages)

end Hopclaw.Context
