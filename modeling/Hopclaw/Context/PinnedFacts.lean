import Hopclaw.Context.Compaction
import Hopclaw.Context.Prompt

/-! # Pinned facts

A message can pin facts in its metadata (`contextengine/engine.go`). `Prepare` merges the durable
facts, those of the session and those of its messages. `Compact` keeps the facts of the messages it
drops in the session. Of two facts with one identity, a merge keeps the later one. -/

namespace Hopclaw.Context

open GoStrings Store

structure PinnedFact where
  key : String := ""
  content : String := ""
  source : String := ""
  updatedAt : Time := 0
  metadata : List (String × Value) := []

def normalizePinnedFact (fact : PinnedFact) : PinnedFact :=
  { fact with
    key := trimSpace fact.key
    content := trimSpace fact.content
    source := trimSpace fact.source }

def pinnedFactIdentity (fact : PinnedFact) : String :=
  let key := toLower (trimSpace fact.key)
  if key ≠ "" then "key:" ++ key else "content:" ++ toLower (trimSpace fact.content)

/-- A round of the loop of `mergePinnedFacts`. There is one fact at most to be replaced. -/
def mergePinnedFact (out : List PinnedFact) (raw : PinnedFact) : List PinnedFact :=
  let fact := normalizePinnedFact raw
  if fact.content = "" then out
  else if ∃ f ∈ out, pinnedFactIdentity f = pinnedFactIdentity fact then
    out.map fun f => if pinnedFactIdentity f = pinnedFactIdentity fact then fact else f
  else out ++ [fact]

def mergePinnedFacts (groups : List (List PinnedFact)) : List PinnedFact :=
  groups.flatten.foldl mergePinnedFact []

/-! ## Facts of messages -/

section Decode

-- `time.Parse` with the layout RFC 3339
variable (parse : String → Option Time)

def MessageRole.text : MessageRole → String
  | .system => "system"
  | .user => "user"
  | .assistant => "assistant"
  | .tool => "tool"

def decodePinnedFactMap (raw : List (String × Value)) (msg : PromptMessage) : PinnedFact :=
  let field (name : String) := (raw.find? fun f => f.1 = name).map Prod.snd
  let text (value : Value) := trimSpace value.sprint
  { key := ((field "key").map text).getD ""
    content := (["content", "text", "summary"].findSome? fun name =>
      ((field name).map text).filter (· ≠ "")).getD ""
    source := ((field "source").map text).getD (MessageRole.text msg.role)
    updatedAt :=
      match field "updated_at" with
      | some (.str value) => (parse (trimSpace value)).getD msg.createdAt
      | _ => msg.createdAt
    metadata :=
      match field "metadata" with
      | some (.object fields) => fields
      | _ => [] }

/-- A fact with a content. -/
def decoded (fact : PinnedFact) : List PinnedFact :=
  if (normalizePinnedFact fact).content = "" then [] else [normalizePinnedFact fact]

mutual

def decodePinnedFactsMetadata (msg : PromptMessage) : Value → List PinnedFact
  | .str s =>
    decoded { content := s, source := MessageRole.text msg.role, updatedAt := msg.createdAt }
  | .object fields => decoded (decodePinnedFactMap parse fields msg)
  | .list items => decodePinnedFactsItems msg items
  | _ => []

def decodePinnedFactsItems (msg : PromptMessage) : List Value → List PinnedFact
  | [] => []
  | item :: rest => decodePinnedFactsMetadata msg item ++ decodePinnedFactsItems msg rest

end

def collectPinnedFacts (messages : List PromptMessage) : List PinnedFact :=
  mergePinnedFacts [messages.flatMap fun msg =>
    decodePinnedFactsMetadata parse msg (Value.index msg.metadata "pinned_fact") ++
      decodePinnedFactsMetadata parse msg (Value.index msg.metadata "pinned_facts")]

/-! ## Sessions with facts -/

structure FactSession extends HotSession PromptMessage where
  pinnedFacts : List PinnedFact := []

/-- `refreshPinnedFacts`, with what is in the memory. -/
def refreshPinnedFacts (durableFacts : List PinnedFact) (session : FactSession) : List PinnedFact :=
  mergePinnedFacts [durableFacts, session.pinnedFacts, collectPinnedFacts parse session.messages]

/-- `Compact` with the facts of the session, where nothing fails. -/
def CompactEngine.compactFacts (e : CompactEngine PromptMessage) (session : FactSession) :
    FactSession :=
  match e.compaction session.toHotSession with
  | none => session
  | some c =>
    { toHotSession := c.nextSession
      pinnedFacts := mergePinnedFacts [collectPinnedFacts parse c.older, session.pinnedFacts] }

end Decode

end Hopclaw.Context
