import Mathlib.Data.List.Infix

/-! # Streaming a model's reply

One call of `Registry.ChatStream` (`model/registry.go`): providers are tried in turn, for each of
them its keys (`model/keypool.go`), and for each key the transport (`model/provider_helpers.go`).
All attempts write to the same callback, which nothing resets.

An attempt here is what becomes of one request: it fails before there is a response, or the events
of the response are read by `consumeAnthropicSSEStream` (`model/anthropic.go`), which decides both
what is passed to `OnTextDelta` and what is returned. The three loops differ only in the errors
they go on after, so they are one loop with that as an argument. The clients of the other APIs have
readers of their own, which are not modelled. `E` are the errors. -/

namespace Hopclaw.Model

/-- `ModelResponse`, without the tool arguments and the usage. -/
structure ModelResponse where
  content : String
  toolCalls : List (String × String) := []
deriving DecidableEq

def concat (texts : List String) : String :=
  texts.foldr (· ++ ·) ""

/-! ## One stream of Anthropic events -/

inductive BlockKind where
  | text
  | toolUse (id name : String)
  | other
deriving DecidableEq

structure BlockAcc where
  kind : BlockKind := .other
  text : String := ""

/-- A decoded server-sent event; what does not decode, and the events that only count tokens or
    complete the message, are `ignored`. -/
inductive SSEEvent (E : Type) where
  | contentBlockStart (index : ℤ) (kind : BlockKind)
  | textDelta (index : ℤ) (text : String)
  | otherDelta (index : ℤ)
  | error (err : E)
  | ignored

/-- The blocks by their index, and the texts passed to `OnTextDelta` so far. -/
structure StreamState where
  blocks : ℤ → Option BlockAcc := fun _ => none
  shown : String := ""

/-- The block of a delta, which is made where the index has none. -/
def StreamState.block (s : StreamState) (index : ℤ) : BlockAcc :=
  (s.blocks index).getD {}

/-- A block is set, and `text` is passed to `OnTextDelta`. -/
def StreamState.put (s : StreamState) (index : ℤ) (block : BlockAcc) (text : String := "") :
    StreamState where
  blocks := Function.update s.blocks index (some block)
  shown := s.shown ++ text

variable {E : Type}

/-- The loop over the events, up to an error event or the end of the body, which `readErr` says
    whether reading it failed. -/
def StreamState.consume (readErr : Option E) (s : StreamState) :
    List (SSEEvent E) → StreamState × Option E
  | [] => (s, readErr)
  | .contentBlockStart index kind :: rest => (s.put index { kind }).consume readErr rest
  | .textDelta index text :: rest =>
    let acc := s.block index
    (s.put index { acc with text := acc.text ++ text } text).consume readErr rest
  | .otherDelta index :: rest => (s.put index (s.block index)).consume readErr rest
  | .error err :: _ => (s, some err)
  | .ignored :: rest => s.consume readErr rest

/-- The blocks `0`, `1`, … up to the first missing one; `n` is more than there are. -/
def StreamState.inOrder (s : StreamState) (n : ℕ) : List BlockAcc :=
  ((List.range n).takeWhile fun i : ℕ => (s.blocks i).isSome).map fun i : ℕ => s.block i

def BlockAcc.textPart (b : BlockAcc) : Option String :=
  if b.kind = .text then some b.text else none

def BlockAcc.toolCall (b : BlockAcc) : Option (String × String) :=
  match b.kind with
  | .toolUse id name => some (id, name)
  | _ => none

/-- The shown texts and the result of a stream. -/
def consumeAnthropicSSEStream (events : List (SSEEvent E)) (readErr : Option E) :
    String × Except E ModelResponse :=
  match StreamState.consume readErr {} events with
  | (s, some err) => (s.shown, .error err)
  | (s, none) =>
    let blocks := s.inOrder (events.length + 1)
    (s.shown, .ok {
      content := concat (blocks.filterMap BlockAcc.textPart)
      toolCalls := blocks.filterMap BlockAcc.toolCall })

/-! ## The attempts of a call -/

/-- What becomes of one round of `executeProviderRequest`. -/
inductive Attempt (E : Type) where
  /-- No request is made: the wait, the request or a hook failed. -/
  | aborted (err : E)
  | transport (err : E)
  | status (code : ℕ) (err : E)
  /-- The events of a response, and why reading on failed, if it did. -/
  | consumed (events : List (SSEEvent E)) (readErr : Option E)

def Attempt.shown : Attempt E → String
  | .consumed events readErr => (consumeAnthropicSSEStream events readErr).1
  | _ => ""

def Attempt.result : Attempt E → Except E ModelResponse
  | .consumed events readErr => (consumeAnthropicSSEStream events readErr).2
  | .aborted err | .transport err | .status _ err => .error err

/-- Which errors each of the loops goes on after. -/
structure RetryRules (E : Type) where
  retryOnError : E → Bool
  retryOnStatusCode : ℕ → Bool := fun code => 500 ≤ code
  isKeyRotatable : E → Bool
  shouldRegistryFailover : E → Bool

/-- A loop over items that are tried in turn: the attempts made, and the result of the last item
    tried. An error is final after the last item and where it is not one to go on after;
    `noAttempt` is that of no item. -/
def tryInTurn {ι : Type} (noAttempt : E) (run : ι → List (Attempt E) × Except E ModelResponse)
    (again : ι → E → Bool) : List ι → List (Attempt E) × Except E ModelResponse
  | [] => ([], .error noAttempt)
  | item :: rest =>
    match run item with
    | (made, .ok resp) => (made, .ok resp)
    | (made, .error err) =>
      if rest.isEmpty || !again item err then (made, .error err)
      else
        let (made', result) := tryInTurn noAttempt run again rest
        (made ++ made', result)

variable (rules : RetryRules E) (noAttempt : E)

def executeProviderRequest : List (Attempt E) → List (Attempt E) × Except E ModelResponse :=
  tryInTurn noAttempt (fun a => ([a], a.result)) fun a err =>
    match a with
    | .aborted _ => false
    | .status code _ => rules.retryOnStatusCode code
    | .transport _ | .consumed _ _ => rules.retryOnError err

/-- The keys the pool hands out, each with the error of its client or with its attempts. -/
def doWithRotation :
    List (E ⊕ List (Attempt E)) → List (Attempt E) × Except E ModelResponse :=
  tryInTurn noAttempt (Sum.elim (fun err => ([], .error err)) (executeProviderRequest rules noAttempt))
    fun key err => key.isRight && rules.isKeyRotatable err

/-- The chain of providers, with whether the call's context has ended when one has failed. -/
def callWithFallback :
    List (Bool × List (E ⊕ List (Attempt E))) → List (Attempt E) × Except E ModelResponse :=
  tryInTurn noAttempt (fun provider => doWithRotation rules noAttempt provider.2)
    fun provider err => !provider.1 && rules.shouldRegistryFailover err

end Hopclaw.Model
