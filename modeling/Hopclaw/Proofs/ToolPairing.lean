import Hopclaw.Context.Prompt
import Mathlib.Data.List.Dedup
import Mathlib.Data.List.Perm.Subperm

/-! # Calls and answers in a prompt

A provider refuses a prompt in which a tool call has no answer, or two. For each id, the messages
that call it and those that answer it form a word, its `trace`. `repairOrphanedToolCalls` takes the
answers out of words without calls, and puts one answer into words where it finds none; it does not
look at the order within a word, and stops after twenty answers. -/

namespace Hopclaw.Context

open List PromptMessage

/-! ## The law -/

/-- Every call has exactly one answer after it, every answer to an id a call before it, and there is
    nothing left to repair. -/
structure Paired (out : List PromptMessage) : Prop where
  answered : ∀ pre m post, out = pre ++ m :: post → ∀ id ∈ m.calls,
    (post.filter fun l => l.Answers id).length = 1
  called : ∀ pre m post, out = pre ++ m :: post → m.role = .tool → m.toolCallID ≠ "" →
    ∃ l ∈ pre, m.toolCallID ∈ l.calls
  stable : repairOrphanedToolCalls out = out

/-! ## Traces -/

inductive Turn
  | call | answer
deriving DecidableEq

def PromptMessage.turn (id : String) (m : PromptMessage) : Option Turn :=
  if id ∈ m.calls then some .call else if m.Answers id then some .answer else none

/-- The calls of an id and the answers to it, in order. -/
def trace (id : String) (messages : List PromptMessage) : List Turn :=
  messages.filterMap (turn id)

/-- Answers without an id are not taken as answers to anything before the first call without
    one. -/
def exchange (id : String) (messages : List PromptMessage) : List Turn :=
  if id = "" then (trace id messages).dropWhile (· = .answer) else trace id messages

/-- All calls come first, and then the one answer. -/
def Settled (messages : List PromptMessage) (id : String) : Prop :=
  ∃ n, exchange id messages = List.replicate (n + 1) .call ++ [.answer]

/-- There is one call and no answer. -/
def Pending (messages : List PromptMessage) (id : String) : Prop :=
  exchange id messages = [.call]

instance (messages : List PromptMessage) (id : String) : Decidable (Pending messages id) :=
  inferInstanceAs (Decidable (_ = _))

/-- Every id that is called is settled or pending, and not too many are pending. -/
structure Repairable (messages : List PromptMessage) : Prop where
  ids : ∀ id ∈ messages.flatMap calls, Settled messages id ∨ Pending messages id
  few : ((messages.flatMap calls).dedup.filter fun id => Pending messages id).length ≤
    maxSyntheticToolResponses

@[simp] theorem trace_nil (id : String) : trace id [] = [] := rfl

theorem trace_cons (id : String) (m : PromptMessage) (messages : List PromptMessage) :
    trace id (m :: messages) = (m.turn id).toList ++ trace id messages := by
  unfold trace
  cases hturn : m.turn id <;> simp [hturn]

theorem trace_append (id : String) (xs ys : List PromptMessage) :
    trace id (xs ++ ys) = trace id xs ++ trace id ys :=
  filterMap_append

variable {id : String} {m : PromptMessage}

/-- A message that calls does not answer. -/
theorem PromptMessage.not_answers_of_calls {id' : String} (h : id ∈ m.calls) : ¬ m.Answers id' := by
  unfold calls at h
  split_ifs at h with hrole
  · rintro ⟨htool, -⟩
    rw [hrole] at htool
    cases htool
  · exact absurd h not_mem_nil

theorem PromptMessage.turn_call : m.turn id = some .call ↔ id ∈ m.calls := by
  unfold turn
  split_ifs with hcall hanswer <;> simp [hcall]

theorem PromptMessage.turn_answer : m.turn id = some .answer ↔ m.Answers id := by
  unfold turn
  split_ifs with hcall hanswer
  · simp [not_answers_of_calls hcall]
  · simp [hanswer]
  · simp [hanswer]

variable {messages : List PromptMessage}

theorem call_mem_trace : Turn.call ∈ trace id messages ↔ ∃ m ∈ messages, id ∈ m.calls := by
  simp [trace, turn_call]

theorem answer_mem_trace : Turn.answer ∈ trace id messages ↔ ∃ m ∈ messages, m.Answers id := by
  simp [trace, turn_answer]

theorem count_answer_trace (id : String) (messages : List PromptMessage) :
    (trace id messages).count .answer = (messages.filter fun m => m.Answers id).length := by
  induction messages with
  | nil => rfl
  | cons m messages ih =>
    rw [trace_cons, count_append, ih]
    by_cases hanswer : m.Answers id
    · simp [turn_answer.mpr hanswer, hanswer, Nat.add_comm]
    · have hno : (m.turn id).toList.count .answer = 0 := by
        refine count_eq_zero.mpr fun hmem => hanswer ?_
        exact turn_answer.mp (Option.mem_toList.mp hmem)
      simp [hno, hanswer]

/-! ## The law by traces -/

/-- `P` holds of what comes after each call of the word. -/
def AfterCalls (P : List Turn → Prop) : List Turn → Prop
  | [] => True
  | .call :: rest => P rest ∧ AfterCalls P rest
  | .answer :: rest => AfterCalls P rest

/-- Every call in the word has exactly one answer after it. -/
abbrev EachAnswered : List Turn → Prop := AfterCalls fun rest => rest.count .answer = 1

/-- Every call in the word has an answer after it. -/
abbrev Covered : List Turn → Prop := AfterCalls fun rest => Turn.answer ∈ rest

variable {P : List Turn → Prop}

variable {post pre : List Turn}

theorem AfterCalls.at_call (h : AfterCalls P (pre ++ .call :: post)) : P post := by
  induction pre with
  | nil => exact h.1
  | cons turn pre ih =>
    cases turn with
    | call => exact ih h.2
    | answer => exact ih h

variable {word : List Turn}

theorem eachAnswered_of_not_call (hno : Turn.call ∉ word) : EachAnswered word := by
  induction word with
  | nil => trivial
  | cons turn rest ih =>
    cases turn with
    | call => exact absurd mem_cons_self hno
    | answer => exact ih fun hmem => hno (mem_cons_of_mem _ hmem)

theorem Covered.eq_nil (h : Covered word) (hno : Turn.answer ∉ word) : word = [] := by
  cases word with
  | nil => rfl
  | cons turn rest =>
    cases turn with
    | call => exact absurd (mem_cons_of_mem _ h.1) hno
    | answer => exact absurd mem_cons_self hno

theorem afterCalls_trace_cons : AfterCalls P (trace id (m :: messages)) ↔
      (id ∈ m.calls → P (trace id messages)) ∧ AfterCalls P (trace id messages) := by
  rw [trace_cons, ← turn_call]
  cases m.turn id with
  | none => simp
  | some turn => cases turn <;> simp [AfterCalls]

variable {out : List PromptMessage}

theorem answered_iff : (∀ pre m post, out = pre ++ m :: post → ∀ id ∈ m.calls,
      (post.filter fun l => l.Answers id).length = 1) ↔ ∀ id, EachAnswered (trace id out) := by
  induction out with
  | nil => simp [AfterCalls]
  | cons first rest ih =>
    simp only [afterCalls_trace_cons, forall_and, count_answer_trace, ← ih]
    constructor
    · exact fun h => ⟨h [] first rest rfl, fun pre m post hrest =>
        h (first :: pre) m post (by rw [hrest]; rfl)⟩
    · rintro ⟨hfirst, hrest⟩ (_ | ⟨_, pre⟩) m post hout <;>
        obtain ⟨rfl, rfl⟩ := cons.inj hout
      · exact hfirst
      · exact hrest pre m post rfl

theorem called_iff : (∀ pre m post, out = pre ++ m :: post → m.role = .tool → m.toolCallID ≠ "" →
      ∃ l ∈ pre, m.toolCallID ∈ l.calls) ↔
    ∀ id, id ≠ "" → (trace id out).head? ≠ some .answer := by
  constructor
  · intro h id hid hhead
    obtain ⟨rest, hword⟩ := head?_eq_some_iff.mp hhead
    obtain ⟨pre, m, post, hout, hpre, hm, -⟩ := filterMap_eq_cons_iff.mp hword
    obtain ⟨htool, rfl⟩ := turn_answer.mp hm
    obtain ⟨l, hl, hcall⟩ := h pre m post hout htool hid
    rw [← turn_call, hpre l hl] at hcall
    cases hcall
  · intro h pre m post hout htool hid
    have hm : m.turn m.toolCallID = some .answer := turn_answer.mpr ⟨htool, rfl⟩
    have hhead := h _ hid
    rw [hout, trace_append, trace_cons, hm] at hhead
    cases hpre : trace m.toolCallID pre with
    | nil => exact absurd (by rw [hpre]; rfl) hhead
    | cons turn rest =>
      cases turn with
      | call => exact call_mem_trace.mp (hpre ▸ mem_cons_self)
      | answer => exact absurd (by rw [hpre]; rfl) hhead

/-! ## Words -/

theorem eachAnswered_of_no_answer (hno : Turn.answer ∉ word) : EachAnswered word ↔ word = [] := by
  cases word with
  | nil => simp [AfterCalls]
  | cons turn rest =>
    cases turn with
    | call =>
      have hcount : rest.count .answer = 0 :=
        count_eq_zero.mpr fun hmem => hno (mem_cons_of_mem _ hmem)
      simp [AfterCalls, hcount]
    | answer => exact absurd mem_cons_self hno

/-- A word that begins with a call is right exactly if it has its calls first and then one
    answer. -/
theorem eachAnswered_call {rest : List Turn} : EachAnswered (.call :: rest) ↔
      ∃ n, Turn.call :: rest = replicate (n + 1) .call ++ [.answer] := by
  induction rest with
  | nil => simp [AfterCalls, replicate_succ]
  | cons turn rest ih =>
    cases turn with
    | call =>
      have hcall : EachAnswered (.call :: .call :: rest) ↔ EachAnswered (.call :: rest) := by
        simp +contextual [AfterCalls]
      rw [hcall, ih]
      constructor
      · rintro ⟨n, hn⟩
        exact ⟨n + 1, by rw [hn]; rfl⟩
      · rintro ⟨_ | n, hn⟩
        · cases hn
        · exact ⟨n, (cons.inj hn).2⟩
    | answer =>
      have hnil : (∃ n, Turn.call :: .answer :: rest = replicate (n + 1) .call ++ [.answer]) ↔
          rest = [] := by
        constructor
        · rintro ⟨_ | n, hn⟩
          · simpa using hn
          · cases (cons.inj hn).2
        · rintro rfl
          exact ⟨0, rfl⟩
      rw [hnil]
      constructor
      · rintro ⟨hcount, hrest⟩
        have hno : rest.count .answer = 0 := by simpa using hcount
        exact (eachAnswered_of_no_answer (count_eq_zero.mp hno)).mp hrest
      · rintro rfl
        simp [AfterCalls]

/-- Answers before the first call do not matter. -/
theorem eachAnswered_iff (hcall : Turn.call ∈ word) : EachAnswered word ↔
    ∃ n, word.dropWhile (· = .answer) = replicate (n + 1) .call ++ [.answer] := by
  induction word with
  | nil => cases hcall
  | cons turn rest ih =>
    cases turn with
    | call => simpa using eachAnswered_call
    | answer => simpa [AfterCalls] using ih (by simpa using hcall)

/-- An answer is put behind a call that has none, where the calls before have theirs already: the
    word is right exactly if that is the only call and the last turn. -/
theorem eachAnswered_insert (hpost : Turn.answer ∉ post) (hpre : Covered pre) :
    EachAnswered (pre ++ .call :: .answer :: post) ↔ Turn.call ∉ pre ∧ post = [] := by
  induction pre with
  | nil =>
    have hno : post.count .answer = 0 := count_eq_zero.mpr hpost
    simpa [AfterCalls, hno] using eachAnswered_of_no_answer hpost
  | cons turn pre ih =>
    cases turn with
    | answer => simpa [AfterCalls] using ih hpre
    | call =>
      have hmem : 0 < pre.count .answer := count_pos_iff.mpr hpre.1
      refine iff_of_false (fun h => ?_) (by simp)
      have hcount : (pre ++ .call :: .answer :: post).count .answer = 1 := h.1
      rw [count_append, count_cons_of_ne (by simp), count_cons_self] at hcount
      omega

theorem dropWhile_eq_single_iff :
    (pre ++ .call :: post).dropWhile (· = .answer) = [.call] ↔ Turn.call ∉ pre ∧ post = [] := by
  induction pre with
  | nil => simp
  | cons turn pre ih =>
    cases turn with
    | answer => simpa using ih
    | call => simp

/-! ## The last loop -/

/-- What the loop over the calls of one message adds: an answer to each id in `ids`. -/
structure AddedHere (later : List PromptMessage) (tcs : List ToolCallRef) (responded : List String)
    (n : ℕ) (result : List PromptMessage × List String × ℕ) (ids : List String) : Prop where
  nodup : ids.Nodup
  fresh : ∀ id ∈ ids, id ∉ responded
  called : ∀ id ∈ ids, id ∈ tcs.map ToolCallRef.id
  unanswered : ∀ id ∈ ids, Turn.answer ∉ trace id later
  trace : ∀ id, trace id result.1 = if id ∈ ids then [.answer] else []
  responded : ∀ id, id ∈ result.2.1 ↔ id ∈ ids ∨ id ∈ responded
  count : result.2.2 = n + ids.length
  few : n ≤ maxSyntheticToolResponses → result.2.2 ≤ maxSyntheticToolResponses
  missed : ∀ tc ∈ tcs, tc.id ∈ result.2.1 ∨ Turn.answer ∈ Context.trace tc.id later ∨
    maxSyntheticToolResponses ≤ result.2.2

theorem turn_syntheticResponse (m : PromptMessage) (tc : ToolCallRef) (id : String) :
    (syntheticResponse m tc).turn id = if id = tc.id then some .answer else none := by
  have hcalls : (syntheticResponse m tc).calls = [] := rfl
  have hanswers : (syntheticResponse m tc).Answers id ↔ id = tc.id := by
    simp [PromptMessage.Answers, syntheticResponse, eq_comm]
  simp [turn, hcalls, hanswers]

theorem answerCalls_spec (m : PromptMessage) (later : List PromptMessage) (tcs : List ToolCallRef)
    (responded : List String) (n : ℕ) :
    ∃ ids, AddedHere later tcs responded n (answerCalls m later tcs responded n) ids := by
  induction tcs generalizing responded n with
  | nil =>
    refine ⟨[], ?_⟩
    constructor <;> simp [answerCalls]
  | cons tc tcs ih =>
    by_cases hskip : tc.id ∈ responded ∨ (∃ l ∈ later, l.Answers tc.id) ∨
        n ≥ maxSyntheticToolResponses
    · obtain ⟨ids, h⟩ := ih responded n
      refine ⟨ids, ?_⟩
      rw [answerCalls, if_pos hskip]
      refine ⟨h.nodup, h.fresh, fun id hid => ?_, h.unanswered, h.trace, h.responded, h.count,
        h.few, fun tc' htc' => ?_⟩
      · exact mem_cons_of_mem _ (h.called id hid)
      · rcases mem_cons.mp htc' with rfl | htc'
        · rcases hskip with hresponded | hanswer | hfull
          · exact .inl ((h.responded _).mpr (.inr hresponded))
          · exact .inr (.inl (answer_mem_trace.mpr hanswer))
          · exact .inr (.inr (by rw [h.count]; omega))
        · exact h.missed tc' htc'
    · obtain ⟨ids, h⟩ := ih (tc.id :: responded) (n + 1)
      obtain ⟨hfresh, hlater, hroom⟩ := by simpa only [not_or] using hskip
      have hnew : tc.id ∉ ids := fun hmem => h.fresh _ hmem mem_cons_self
      refine ⟨tc.id :: ids, ?_⟩
      rw [answerCalls, if_neg hskip]
      refine ⟨nodup_cons.mpr ⟨hnew, h.nodup⟩, fun id hid => ?_, fun id hid => ?_,
        fun id hid => ?_, fun id => ?_, fun id => ?_, ?_, fun _ => h.few (by omega),
        fun tc' htc' => ?_⟩
      · rcases mem_cons.mp hid with rfl | hid
        · exact hfresh
        · exact fun hmem => h.fresh id hid (mem_cons_of_mem _ hmem)
      · rcases mem_cons.mp hid with rfl | hid
        · exact mem_cons_self
        · exact mem_cons_of_mem _ (h.called id hid)
      · rcases mem_cons.mp hid with rfl | hid
        · exact fun hmem => hlater (answer_mem_trace.mp hmem)
        · exact h.unanswered id hid
      · rw [trace_cons, turn_syntheticResponse, h.trace]
        by_cases hid : id = tc.id
        · simp [hid, hnew]
        · simp [hid]
      · rw [h.responded]
        simp only [mem_cons]
        tauto
      · rw [h.count, length_cons]
        omega
      · rcases mem_cons.mp htc' with rfl | htc'
        · exact .inl ((h.responded _).mpr (.inr mem_cons_self))
        · exact h.missed tc' htc'

/-- What the loop over the messages adds. -/
structure Added (messages : List PromptMessage) (responded : List String) (n : ℕ)
    (out : List PromptMessage) (ids : List String) : Prop where
  nodup : ids.Nodup
  fresh : ∀ id ∈ ids, id ∉ responded
  few : n + ids.length ≤ maxSyntheticToolResponses
  same : ∀ id, id ∉ ids → trace id out = trace id messages
  inserted : ∀ id ∈ ids, ∃ pre post, trace id messages = pre ++ .call :: post ∧
    trace id out = pre ++ .call :: .answer :: post ∧ Turn.answer ∉ post ∧ Covered pre
  missed : ∀ id, id ∉ ids → id ∉ responded →
    n + ids.length = maxSyntheticToolResponses ∨ Covered (trace id messages)

variable {n : ℕ}

theorem repairLoop_spec (messages : List PromptMessage) (responded : List String)
    (hn : n ≤ maxSyntheticToolResponses) :
    ∃ ids, Added messages responded n (repairLoop messages responded n) ids := by
  induction messages generalizing responded n with
  | nil =>
    refine ⟨[], ?_⟩
    constructor <;> simp [repairLoop, hn, AfterCalls]
  | cons m later ih =>
    obtain ⟨here, h⟩ := answerCalls_spec m later (if m.role = .assistant then m.toolCalls else [])
      responded n
    have hcalls : (if m.role = .assistant then m.toolCalls else []).map ToolCallRef.id = m.calls := by
      unfold calls
      split_ifs <;> rfl
    rw [repairLoop]
    generalize answerCalls m later (if m.role = .assistant then m.toolCalls else []) responded n =
      result at h
    obtain ⟨out, responded', n'⟩ := result
    obtain ⟨ids, hrest⟩ := ih responded' (h.few hn)
    have hcount : n' = n + here.length := h.count
    have hfew : n' + ids.length ≤ maxSyntheticToolResponses := hrest.few
    have hout : ∀ id, trace id (m :: (out ++ repairLoop later responded' n')) =
        (m.turn id).toList ++ ((if id ∈ here then [.answer] else []) ++
          trace id (repairLoop later responded' n')) := by
      intro id
      rw [trace_cons, trace_append, show trace id out = _ from h.trace id]
    have hdisjoint : ∀ id ∈ here, id ∉ ids := fun id hid hmem =>
      hrest.fresh id hmem ((h.responded id).mpr (.inl hid))
    have hturn : ∀ id ∈ here, m.turn id = some .call := fun id hid =>
      turn_call.mpr (hcalls ▸ h.called id hid)
    have hmissed : ∀ id ∈ m.calls, id ∈ responded' ∨ Turn.answer ∈ trace id later ∨
        maxSyntheticToolResponses ≤ n' := by
      intro id hid
      rw [← hcalls] at hid
      obtain ⟨tc, htc, rfl⟩ := mem_map.mp hid
      exact h.missed tc htc
    refine ⟨here ++ ids, ?_, fun id hid => ?_, ?_, fun id hid => ?_, fun id hid => ?_,
      fun id hid hresponded => ?_⟩
    · exact nodup_append.mpr ⟨h.nodup, hrest.nodup, fun a ha b hb heq =>
        hdisjoint a ha (heq ▸ hb)⟩
    · rcases mem_append.mp hid with hid | hid
      · exact h.fresh id hid
      · exact fun hmem => hrest.fresh id hid ((h.responded id).mpr (.inr hmem))
    · rw [length_append]
      omega
    · have hhere : id ∉ here := fun hmem => hid (mem_append_left _ hmem)
      have hids : id ∉ ids := fun hmem => hid (mem_append_right _ hmem)
      rw [hout, if_neg hhere, nil_append, hrest.same id hids, trace_cons]
    · by_cases hhere : id ∈ here
      · -- the answer comes right behind the call
        refine ⟨[], trace id later, ?_, ?_, h.unanswered id hhere, trivial⟩
        · rw [trace_cons, hturn id hhere]
          rfl
        · rw [hout, if_pos hhere, hturn id hhere, hrest.same id (hdisjoint id hhere)]
          rfl
      · have hids := (mem_append.mp hid).resolve_left hhere
        obtain ⟨pre, post, hlater, hrepaired, hpost, hpre⟩ := hrest.inserted id hids
        refine ⟨(m.turn id).toList ++ pre, post, ?_, ?_, hpost, ?_⟩
        · rw [trace_cons, hlater, append_assoc]
        · rw [hout, if_neg hhere, hrepaired, nil_append, append_assoc]
        · cases hm : m.turn id with
          | none => exact hpre
          | some turn =>
            cases turn with
            | answer => exact hpre
            | call =>
              -- a call by this message was passed over because of a later answer
              refine ⟨?_, hpre⟩
              have hpos : 0 < ids.length := length_pos_of_mem hids
              rcases hmissed id (turn_call.mp hm) with hresp | hanswer | hfull
              · exact absurd hresp (hrest.fresh _ hids)
              · rw [hlater] at hanswer
                simpa [hpost] using hanswer
              · omega
    · have hhere : id ∉ here := fun hmem => hid (mem_append_left _ hmem)
      have hids : id ∉ ids := fun hmem => hid (mem_append_right _ hmem)
      have hresponded' : id ∉ responded' := fun hmem =>
        ((h.responded id).mp hmem).elim hhere hresponded
      rw [length_append, ← Nat.add_assoc, ← hcount]
      rcases hrest.missed id hids hresponded' with hfull | hfound
      · exact .inl hfull
      · rw [Covered, afterCalls_trace_cons]
        by_cases hcall : id ∈ m.calls
        · rcases hmissed id hcall with hresp | hanswer | hfull
          · exact absurd hresp hresponded'
          · exact .inr ⟨fun _ => hanswer, hfound⟩
          · exact .inl (by omega)
        · exact .inr ⟨fun h => absurd h hcall, hfound⟩

/-! ## The first loops -/

variable {messages : List PromptMessage}

theorem mem_calls_iff : id ∈ messages.flatMap calls ↔ Turn.call ∈ trace id messages := by
  rw [mem_flatMap, call_mem_trace]

theorem trace_cleanMessages (h : id = "" ∨ Turn.call ∈ trace id messages) :
    trace id (cleanMessages messages) = trace id messages := by
  have hkept : ∀ m : PromptMessage, (m.turn id).isSome = true →
      (!(m.role = .tool && m.toolCallID ≠ "" &&
        m.toolCallID ∉ messages.flatMap calls)) = true := by
    intro m hturn
    by_cases hanswer : m.Answers id
    · rcases h with rfl | hcall
      · simp [hanswer.2]
      · have := mem_calls_iff.mpr hcall
        rw [← hanswer.2] at this
        simp [this]
    · have hcalls : id ∈ m.calls := by
        unfold turn at hturn
        split_ifs at hturn with hcalls
        · exact hcalls
        · simp at hturn
      have hrole : m.role = .assistant := by
        unfold calls at hcalls
        split_ifs at hcalls with hrole
        · exact hrole
        · exact absurd hcalls not_mem_nil
      simp [hrole]
  unfold trace cleanMessages
  rw [filterMap_filter]
  refine filterMap_congr fun m _ => ?_
  cases hturn : m.turn id with
  | none => simp
  | some turn => rw [if_pos (hkept m (by rw [hturn]; rfl))]

theorem trace_cleanMessages_of_not_called (hid : id ≠ "") (h : Turn.call ∉ trace id messages) :
    trace id (cleanMessages messages) = [] := by
  refine filterMap_eq_nil_iff.mpr fun m hm => ?_
  obtain ⟨hmem, hkept⟩ := mem_filter.mp hm
  have hcalls : id ∉ m.calls := fun hcalls => h (call_mem_trace.mpr ⟨m, hmem, hcalls⟩)
  have hanswers : ¬ m.Answers id := by
    rintro ⟨hrole, rfl⟩
    have hno : m.toolCallID ∉ messages.flatMap calls :=
      fun hcall => h (mem_calls_iff.mp hcall)
    simp [hrole, hid, hno] at hkept
  simp [turn, hcalls, hanswers]

theorem mem_respondedIDs :
    id ∈ respondedIDs messages ↔ id ≠ "" ∧ Turn.answer ∈ trace id messages := by
  simp only [respondedIDs, mem_map, mem_filter, answer_mem_trace, Bool.and_eq_true, decide_eq_true_eq]
  constructor
  · rintro ⟨m, ⟨hm, hrole, hid⟩, rfl⟩
    exact ⟨hid, m, hm, hrole, rfl⟩
  · rintro ⟨hid, m, hm, hrole, rfl⟩
    exact ⟨m, ⟨hm, hrole, hid⟩, rfl⟩

/-! ## Repaired messages -/

/-- What was repaired, by ids. -/
theorem repair_spec (messages : List PromptMessage) :
    ∃ ids, Added (cleanMessages messages) (respondedIDs (cleanMessages messages)) 0
      (repairOrphanedToolCalls messages) ids :=
  repairLoop_spec _ _ (Nat.zero_le _)

section Added

variable {ids : List String} {id : String}
  (h : Added (cleanMessages messages) (respondedIDs (cleanMessages messages)) 0
    (repairOrphanedToolCalls messages) ids)

include h

theorem Added.called (hid : id ∈ ids) : Turn.call ∈ trace id messages := by
  obtain ⟨pre, post, htrace, -⟩ := h.inserted id hid
  by_contra hno
  by_cases hempty : id = ""
  · rw [trace_cleanMessages (.inl hempty)] at htrace
    exact hno (htrace ▸ by simp)
  · rw [trace_cleanMessages_of_not_called hempty hno] at htrace
    exact absurd htrace (by simp)

/-- An id that got an answer is right exactly if it was pending. -/
theorem Added.inserted_iff (hid : id ∈ ids) :
    (EachAnswered (trace id (repairOrphanedToolCalls messages)) ↔ Pending messages id) ∧
      (trace id (repairOrphanedToolCalls messages)).head? = (trace id messages).head? := by
  obtain ⟨pre, post, htrace, hout, hpost, hpre⟩ := h.inserted id hid
  rw [trace_cleanMessages (.inr (h.called hid))] at htrace
  rw [hout, eachAnswered_insert hpost hpre, Pending, exchange, htrace]
  refine ⟨?_, by cases pre <;> rfl⟩
  split_ifs with hempty
  · exact dropWhile_eq_single_iff.symm
  · -- an id that is not empty had no answer at all, so the first call got it
    have hno : Turn.answer ∉ trace id messages := fun hmem => h.fresh id hid
      (mem_respondedIDs.mpr ⟨hempty, by rwa [trace_cleanMessages (.inr (h.called hid))]⟩)
    obtain rfl := Covered.eq_nil hpre fun hmem => hno (htrace ▸ mem_append_left _ hmem)
    simp

/-- The other ids have their turns as before, those that are not called none. -/
theorem Added.same_iff (hid : id ∉ ids) (hcall : Turn.call ∈ trace id messages) :
    trace id (repairOrphanedToolCalls messages) = trace id messages := by
  rw [h.same id hid, trace_cleanMessages (.inr hcall)]

theorem Added.not_called (hcall : Turn.call ∉ trace id messages) :
    EachAnswered (trace id (repairOrphanedToolCalls messages)) ∧
      (id ≠ "" → trace id (repairOrphanedToolCalls messages) = []) := by
  have hid : id ∉ ids := fun hid => hcall (h.called hid)
  rw [h.same id hid]
  by_cases hempty : id = ""
  · rw [trace_cleanMessages (.inl hempty)]
    exact ⟨eachAnswered_of_not_call hcall, fun hne => absurd hempty hne⟩
  · rw [trace_cleanMessages_of_not_called hempty hcall]
    exact ⟨trivial, fun _ => rfl⟩

end Added

/-- An id that is called is settled exactly if its word is right and does not begin with an
    answer. -/
theorem settled_iff (hcall : Turn.call ∈ trace id messages) :
    Settled messages id ↔ EachAnswered (trace id messages) ∧
      (id ≠ "" → (trace id messages).head? ≠ some .answer) := by
  rw [eachAnswered_iff hcall, Settled, exchange]
  by_cases hempty : id = ""
  · simp [hempty]
  · cases hword : trace id messages with
    | nil =>
      rw [hword] at hcall
      cases hcall
    | cons turn rest => cases turn <;> simp [hempty, replicate_succ]

/-- A pending id has a call without an answer. -/
theorem Pending.exists_call (h : Pending messages id) :
    ∃ pre, trace id messages = pre ++ [.call] ∧ (id ≠ "" → pre = []) := by
  unfold Pending exchange at h
  split_ifs at h with hempty
  · refine ⟨(trace id messages).takeWhile (· = .answer), ?_, fun hne => absurd hempty hne⟩
    rw [← h, takeWhile_append_dropWhile]
  · exact ⟨[], h, fun _ => rfl⟩

theorem Pending.not_eachAnswered (h : Pending messages id) :
    ¬ EachAnswered (trace id messages) := by
  obtain ⟨pre, htrace, -⟩ := h.exists_call
  rw [htrace]
  exact fun heach => absurd heach.at_call (by simp)

/-! ## Nothing left to repair -/

variable {responded : List String}

theorem answerCalls_eq_nil {later : List PromptMessage} {tcs : List ToolCallRef}
    (h : ∀ tc ∈ tcs, ∃ l ∈ later, l.Answers tc.id) :
    answerCalls m later tcs responded n = ([], responded, n) := by
  induction tcs with
  | nil => rfl
  | cons tc tcs ih =>
    rw [answerCalls, if_pos (.inr (.inl (h tc mem_cons_self)))]
    exact ih fun tc' htc' => h tc' (mem_cons_of_mem _ htc')

theorem repairLoop_eq_self (h : ∀ id, EachAnswered (trace id messages)) :
    repairLoop messages responded n = messages := by
  induction messages generalizing responded n with
  | nil => rfl
  | cons m later ih =>
    simp only [afterCalls_trace_cons, forall_and] at h
    have hanswers : ∀ tc ∈ (if m.role = .assistant then m.toolCalls else []),
        ∃ l ∈ later, l.Answers tc.id := by
      intro tc htc
      have hcall : tc.id ∈ m.calls := by
        unfold calls
        split_ifs at htc ⊢ with hrole
        · exact mem_map_of_mem htc
        · exact absurd htc not_mem_nil
      have hcount := h.1 tc.id hcall
      exact answer_mem_trace.mp (count_pos_iff.mp (by omega))
    rw [repairLoop, answerCalls_eq_nil hanswers]
    simp only [nil_append, ih h.2]

theorem repair_stable (hanswered : ∀ id, EachAnswered (trace id out))
    (hcalled : ∀ m ∈ out, m.role = .tool → m.toolCallID ≠ "" → Turn.call ∈ trace m.toolCallID out) :
    repairOrphanedToolCalls out = out := by
  have hclean : cleanMessages out = out := by
    refine filter_eq_self.mpr fun m hm => ?_
    by_contra hgone
    simp only [Bool.not_eq_true, Bool.not_eq_false', Bool.and_eq_true, decide_eq_true_eq] at hgone
    obtain ⟨⟨hrole, hid⟩, hno⟩ := hgone
    exact hno (mem_calls_iff.mpr (hcalled m hm hrole hid))
  simp only [repairOrphanedToolCalls, hclean]
  exact repairLoop_eq_self hanswered

/-! ## All prompts -/

theorem paired_repair (messages : List PromptMessage) (hrepair : Repairable messages) :
    Paired (repairOrphanedToolCalls messages) := by
  obtain ⟨ids, h⟩ := repair_spec messages
  have hpendingOf : ∀ id ∈ ids, Pending messages id := by
    intro id hid
    refine (hrepair.ids id (mem_calls_iff.mpr (h.called hid))).resolve_left fun hsettled => ?_
    -- all calls of a settled id have an answer, so that it would have been passed over
    obtain ⟨pre, post, htrace, -, hpost, -⟩ := h.inserted id hid
    rw [trace_cleanMessages (.inr (h.called hid))] at htrace
    have heach := ((settled_iff (h.called hid)).mp hsettled).1
    rw [htrace] at heach
    exact hpost (count_pos_iff.mp (heach.at_call ▸ Nat.one_pos))
  have hmem : ∀ id, Pending messages id → Turn.call ∈ trace id messages → id ∈ ids := by
    intro id hpending hcall
    by_contra hid
    obtain ⟨pre, htrace, hpre⟩ := hpending.exists_call
    have hfresh : id ∉ respondedIDs (cleanMessages messages) := by
      intro hresponded
      obtain ⟨hne, hanswer⟩ := mem_respondedIDs.mp hresponded
      rw [trace_cleanMessages (.inr hcall), htrace, hpre hne] at hanswer
      simp at hanswer
    rcases h.missed id hid hfresh with hfull | hfound
    · -- then twenty other ids are pending, and this one is one too many
      have hsub : (id :: ids) ⊆
          (messages.flatMap calls).dedup.filter fun id => Pending messages id := by
        intro id' hid'
        refine mem_filter.mpr ⟨mem_dedup.mpr (mem_calls_iff.mpr ?_), decide_eq_true ?_⟩
        · rcases mem_cons.mp hid' with rfl | hid'
          · exact hcall
          · exact h.called hid'
        · rcases mem_cons.mp hid' with rfl | hid'
          · exact hpending
          · exact hpendingOf id' hid'
      have hlength := (subperm_of_subset (nodup_cons.mpr ⟨hid, h.nodup⟩) hsub).length_le
      have hfew := hrepair.few
      rw [length_cons] at hlength
      omega
    · rw [trace_cleanMessages (.inr hcall), htrace] at hfound
      exact absurd hfound.at_call not_mem_nil
  have hword : ∀ id, EachAnswered (trace id (repairOrphanedToolCalls messages)) ∧
      (id ≠ "" → (trace id (repairOrphanedToolCalls messages)).head? ≠ some .answer) := by
    intro id
    by_cases hcall : Turn.call ∈ trace id messages
    · rcases hrepair.ids id (mem_calls_iff.mpr hcall) with hsettled | hpending
      · have hid : id ∉ ids := fun hid => by
          have := (settled_iff hcall).mp hsettled
          exact (hpendingOf id hid).not_eachAnswered this.1
        rw [h.same_iff hid hcall]
        exact (settled_iff hcall).mp hsettled
      · have hid := hmem id hpending hcall
        refine ⟨(h.inserted_iff hid).1.mpr hpending, fun hne => ?_⟩
        obtain ⟨pre, htrace, hpre⟩ := hpending.exists_call
        rw [(h.inserted_iff hid).2, htrace, hpre hne]
        simp
    · obtain ⟨heach, hnil⟩ := h.not_called hcall
      exact ⟨heach, fun hne => by simp [hnil hne]⟩
  have hcalled := called_iff.mpr fun id => (hword id).2
  refine ⟨answered_iff.mpr fun id => (hword id).1, hcalled,
    repair_stable (fun id => (hword id).1) fun m hm hrole hid => ?_⟩
  obtain ⟨pre, post, hout⟩ := append_of_mem hm
  obtain ⟨l, hl, hcall⟩ := hcalled pre m post hout hrole hid
  exact call_mem_trace.mpr ⟨l, by rw [hout]; exact mem_append_left _ hl, hcall⟩

theorem repairable_of_paired (messages : List PromptMessage)
    (hpaired : Paired (repairOrphanedToolCalls messages)) : Repairable messages := by
  obtain ⟨ids, h⟩ := repair_spec messages
  have heach := answered_iff.mp hpaired.answered
  have hhead := called_iff.mp hpaired.called
  refine ⟨fun id hid => ?_, ?_⟩
  · have hcall := mem_calls_iff.mp hid
    by_cases hmem : id ∈ ids
    · exact .inr ((h.inserted_iff hmem).1.mp (heach id))
    · refine .inl ((settled_iff hcall).mpr ?_)
      rw [← h.same_iff hmem hcall]
      exact ⟨heach id, hhead id⟩
  · -- a pending id needs an answer, and there are at most twenty
    have hsub : ((messages.flatMap calls).dedup.filter fun id => Pending messages id) ⊆
        ids := by
      intro id hid
      obtain ⟨hdedup, hpending⟩ := mem_filter.mp hid
      have hcall := mem_calls_iff.mp (mem_dedup.mp hdedup)
      by_contra hmem
      have := heach id
      rw [h.same_iff hmem hcall] at this
      exact (of_decide_eq_true hpending).not_eachAnswered this
    have hlength := (subperm_of_subset ((nodup_dedup _).filter _) hsub).length_le
    have hfew := h.few
    omega

/-- The messages of a prompt are paired exactly if those that were selected can be repaired. -/
theorem prompt_paired_iff {F : Type} [FloatOps F] (cfg : Config) (parseFloat : String → Option F)
    (p : PromptInputs) (messages : List PromptMessage) :
    Paired ((newSlidingWindowEngine cfg).prepareMessages parseFloat p messages) ↔
      Repairable (withSummary p.now p.summaryPrompt
        ((newSlidingWindowEngine cfg).selected parseFloat p messages)) :=
  ⟨repairable_of_paired _, paired_repair _⟩

/-! ## Prompts that are refused -/

/-- Messages that fit into any budget. -/
def freeConfig : Config where
  estimator := ⟨fun _ => 0, fun _ => 0⟩

def roomyInputs : PromptInputs where
  recentMessages := 1
  knowledge := 0
  maxInput := 0

/-- An assistant message with the calls a model made. -/
def callingMessage (now : Time) (calls : List ToolCallRef) : PromptMessage where
  role := .assistant
  content := ""
  createdAt := now
  metadata := []
  toolCalls := normalizeToolCalls calls

/-- Two turns of a session in which the model calls one tool without giving an id: the first call is
    answered, the second not yet. -/
def repeatedID : List PromptMessage :=
  [callingMessage 1 [{ id := "", name := "fs.read" }],
    { role := .tool, content := "data", createdAt := 2, metadata := []
      toolCallID := "call_fs_read_1" },
    callingMessage 3 [{ id := "", name := "fs.read" }]]

/-- Both calls have the same id, and the second is sent without an answer. -/
theorem repeated_id_left_unanswered :
    ¬ Paired ((newSlidingWindowEngine freeConfig).prepareMessages
      (fun _ => (none : Option ℚ)) roomyInputs repeatedID) := by
  intro h
  have hword : trace "call_fs_read_1" ((newSlidingWindowEngine freeConfig).prepareMessages
      (fun _ => (none : Option ℚ)) roomyInputs repeatedID) = [.call, .answer, .call] := by
    decide +kernel
  have heach := answered_iff.mp h.answered "call_fs_read_1"
  rw [hword] at heach
  exact absurd heach.2.1 (by simp)

end Hopclaw.Context
