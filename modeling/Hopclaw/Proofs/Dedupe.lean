import Hopclaw.Proofs.Knowledge

/-! # One run per event

`Submit` asks the store whether it has seen an event and creates a run if it has not; the question
and the creation are two operations. As long as no two submissions of one event are between the two
at the same time, and a stored run is found by the question, the store has one run for the event
and every submission of it returns that run. -/

namespace Hopclaw

open Option Interleaving RunStore Function

variable {ι : Type}

/-- The run with this id is stored and was created for the event. -/
def RunStore.HasRunFor (s : RunStore) (event id : String) : Prop :=
  ∃ run, s.find? id = some run ∧ run.inputEventID = event

/-- The index leads from the event to its one run. -/
def RunStore.IndexedFor (s : RunStore) (event : String) : Prop :=
  ∀ id, s.byEventID.lookup event = some id ↔ s.HasRunFor event id

variable {sessionID : String} {msg : IncomingMessage}

variable {cfg : AgentConfig}

section Operations

variable {env : Env} {q : Bool} {h : Hist} {w : World} {o : Op} {event : String}

/-- The operation creates a run for the event. -/
def Op.CreatesFor (o : Op) (event : String) : Prop :=
  ∃ sessionID msg cfg, o = .runsCreate sessionID msg cfg ∧ msg.externalEventID = event

/-- Only a creation for the event adds a run for it. -/
theorem World.exec_hasRunFor (hg : (protocol q).guar h o) (hk : h.Knows w)
    (hno : ¬ o.CreatesFor event) (id : String) :
    (w.exec env o).2.runs.HasRunFor event id ↔ w.runs.HasRunFor event id := by
  unfold RunStore.HasRunFor
  cases w.exec_recordChange env o id with
  | same hsame => rw [hsame]
  | updated run old t ho hid hb ha =>
    subst ho hid
    obtain ⟨snap, hs, hev, -, -⟩ : h.MayWrite run := hg
    obtain ⟨stored, hstored, hev', -⟩ := hk run.id snap hs
    obtain rfl := some.inj (hb.symm.trans hstored)
    rw [ha, hb]
    simp only [some.injEq, exists_eq_left']
    rw [show (run.stamped t).inputEventID = old.inputEventID from hev.symm.trans hev']
  | claimed old t₁ t₂ ho hb hq ha =>
    rw [ha, hb]
    simp only [some.injEq, exists_eq_left']
    rfl
  | created sessionID msg cfg t ho hb ha =>
    rw [ha, hb]
    simp only [some.injEq, exists_eq_left', reduceCtorEq, false_and, exists_false, iff_false]
    exact fun he => hno ⟨sessionID, msg, cfg, ho, he⟩

/-- Only a creation for the event changes where the index leads. -/
theorem World.exec_lookup (hi : w.runs.IndexedFor event) (hg : (protocol q).guar h o)
    (hk : h.Knows w) (hno : ¬ o.CreatesFor event) :
    (w.exec env o).2.runs.byEventID.lookup event = w.runs.byEventID.lookup event := by
  by_cases ho : o.writes = some .runs
  case neg => rw [(w.exec_writes env o).runs ho]
  cases o
  case runsUpdate run =>
    rcases w.exec_update env run with ⟨e, -, -, hs⟩ | ⟨old, t, hf, -, -, hs⟩ <;> rw [hs]
    rw [update_of_some t hf]
    simp only [indexEvent]
    split_ifs with hne
    · by_cases he : event = run.inputEventID
      · -- the run was created for the event, so the index leads to it already
        subst he
        obtain ⟨snap, hsnap, hev, -, -⟩ : h.MayWrite run := hg
        obtain ⟨stored, hstored, hev', -⟩ := hk run.id snap hsnap
        rw [AList.lookup_insert]
        exact ((hi run.id).mpr ⟨stored, hstored, hev'.symm.trans hev⟩).symm
      · rw [put_byEventID, AList.lookup_insert_ne he]
    · rw [put_byEventID]
  case runsClaim id =>
    rcases w.exec_claim env id with
      ⟨e, -, -, hs⟩ | ⟨old, -, -, -, hs⟩ | ⟨old, t₁, t₂, hf, hq, -, hs⟩ <;> rw [hs]
    rw [claimQueuedRun_of_queued t₁ t₂ hf hq, put_byEventID]
  case runsCreate sessionID msg cfg =>
    rcases w.exec_create env sessionID msg cfg with ⟨e, -, -, hs⟩ | ⟨t, -, -, hs⟩ <;> rw [hs]
    have hne : event ≠ msg.externalEventID := fun he => hno ⟨sessionID, msg, cfg, rfl, he.symm⟩
    simp only [create]
    split_ifs
    · exact AList.lookup_insert_ne hne
    · rfl
  all_goals exact absurd ho (by simp [Op.writes])

/-- A creation for an event without run makes the new run the event's one. -/
theorem World.exec_create_indexes (hi : w.runs.IndexedFor msg.externalEventID)
    (he : msg.externalEventID ≠ "") (hnone : w.runs.byEventID.lookup msg.externalEventID = none)
    {run : Run} (hr : (w.exec env (.runsCreate sessionID msg cfg)).1 = (.ok run : Except Err Run)) :
    (w.exec env (.runsCreate sessionID msg cfg)).2.runs.IndexedFor msg.externalEventID ∧
    (w.exec env (.runsCreate sessionID msg cfg)).2.runs.byEventID.lookup msg.externalEventID =
      some run.id := by
  rcases w.exec_create env sessionID msg cfg with ⟨e, -, herr, -⟩ | ⟨t, -, hok, hs⟩
  · exact absurd (hr.symm.trans herr) (by simp)
  obtain rfl : run = w.runs.newRun t sessionID msg cfg := Except.ok.inj (hr.symm.trans hok)
  have hlookup : (w.exec env (.runsCreate sessionID msg cfg)).2.runs.byEventID.lookup
      msg.externalEventID = some (w.runs.newRun t sessionID msg cfg).id := by
    rw [hs]
    simp only [create, ne_eq, he, not_false_eq_true]
    exact AList.lookup_insert _
  refine ⟨fun id => ?_, hlookup⟩
  rw [hlookup, RunStore.HasRunFor, hs, create_find?]
  split_ifs with hid
  · subst hid
    exact ⟨fun _ => ⟨_, rfl, rfl⟩, fun _ => rfl⟩
  · -- no other run was created for the event, or the index would have led to it
    refine ⟨fun h => absurd (some.inj h).symm hid, fun h => ?_⟩
    exact absurd (hnone.symm.trans ((hi id).mpr h)) (by simp)

end Operations

/-! ## What an actor remembers of the event -/

/-- The message an operation creates a run for. -/
def Op.creates : Op → Option IncomingMessage
  | .runsCreate _ msg _ => some msg
  | _ => none

variable {o : Op} {r : o.Resp}

/-- An actor is about to create a run for the event since the store said it has not seen it. -/
theorem Hist.note_pending {h : Hist} {event : String}
    (hp : (Hist.note o r h).pending = some event) :
    (∃ within, o = .runsSeen event within ∧ HEq r false) ∨
      h.pending = some event ∧ o.creates = none := by
  cases o
  case runsSeen e within =>
    cases (r : Bool) with
    | true => exact absurd hp (by simp [Hist.note])
    | false =>
      obtain rfl : e = event := by simpa [Hist.note] using hp
      exact .inl ⟨within, rfl, HEq.rfl⟩
  case runsCreate => cases (r : Except Err Run) <;> exact absurd hp (by simp [Hist.note])
  case runsFindByExternalEvent | runsGet => cases (r : Except Err Run) <;> exact .inr ⟨hp, rfl⟩
  case runsUpdate => cases (r : Except Err Time) <;> exact .inr ⟨hp, rfl⟩
  case runsClaim => cases (r : Except Err (Run × Bool)) <;> exact .inr ⟨hp, rfl⟩
  case queueStart => cases (r : Except Err Unit) <;> exact .inr ⟨hp, rfl⟩
  case queueFinish site _ _ => cases site <;> exact .inr ⟨hp, rfl⟩
  case runsList =>
    refine .inr ⟨?_, rfl⟩
    cases (r : Except Err RunPage) with
    | error e => exact hp
    | ok page => exact (Hist.Frame.foldl_see h page.runs).pending.symm.trans hp
  all_goals exact .inr ⟨hp, rfl⟩

/-- An actor learns the run of the event from the store. -/
theorem Hist.note_answer {h : Hist} {event id : String}
    (ha : (Hist.note o r h).answer event = some id) : h.answer event = some id ∨
    (∃ run, o = .runsFindByExternalEvent event ∧ HEq r (.ok run : Except Err Run) ∧ run.id = id) ∨
    ∃ run s m c, o = .runsCreate s m c ∧ m.externalEventID = event ∧
      HEq r (.ok run : Except Err Run) ∧ run.id = id := by
  cases o
  case runsFindByExternalEvent e =>
    cases (r : Except Err Run) with
    | error _ => exact .inl ha
    | ok run =>
      by_cases he : event = e
      · subst he
        simp only [Hist.note, update_self, some.injEq] at ha
        exact .inr (.inl ⟨run, rfl, HEq.rfl, ha⟩)
      · simp only [Hist.note, update_of_ne he] at ha
        exact .inl ha
  case runsCreate s m c =>
    cases (r : Except Err Run) with
    | error _ => exact .inl ha
    | ok run =>
      by_cases he : event = m.externalEventID
      · subst he
        simp only [Hist.note, update_self, some.injEq] at ha
        exact .inr (.inr ⟨run, s, m, c, rfl, rfl, HEq.rfl, ha⟩)
      · simp only [Hist.note, update_of_ne he] at ha
        exact .inl ha
  case runsGet => cases (r : Except Err Run) <;> exact .inl ha
  case runsUpdate => cases (r : Except Err Time) <;> exact .inl ha
  case runsClaim => cases (r : Except Err (Run × Bool)) <;> exact .inl ha
  case queueStart => cases (r : Except Err Unit) <;> exact .inl ha
  case queueFinish site _ _ => cases site <;> exact .inl ha
  case runsList =>
    left
    cases (r : Except Err RunPage) with
    | error e => exact ha
    | ok page => rwa [← (Hist.Frame.foldl_see h page.runs).answer]
  all_goals exact .inl ha

variable {i : ι} {c : System ι}

namespace System

/-- Where the actor is about to ask for the event, no other actor is between the question and the
    creation of a run for it, and a run stored for it is within the window. -/
def AsksAlone (env : Env) (event : String) (c : System ι) (i : ι) : Prop :=
  match (c.threads i).next with
  | some (.runsSeen e within) => e = event →
    (∀ j, j ≠ i → (c.threads j).hist.pending ≠ some event) ∧
      ((c.state.runs.byEvent? event).all fun run => within ≤ 0 ||
        RunStore.withinWindow within (env.clock c.state.tick 0).1 run.updatedAt) = true
  | _ => True

instance [Fintype ι] [DecidableEq ι] (env : Env) (event : String) (i : ι) (c : System ι) :
    Decidable (AsksAlone env event c i) := by
  unfold AsksAlone
  split <;> infer_instance

/-- There is one run for the event, everybody who learned of one learned of that one, and who is
    about to create it is alone. -/
structure OneRunFor (event : String) (c : System ι) : Prop where
  indexed : c.state.runs.IndexedFor event
  pending : ∀ i, (c.threads i).hist.pending = some event →
    c.state.runs.byEventID.lookup event = none
  alone : ∀ i j, (c.threads i).hist.pending = some event →
    (c.threads j).hist.pending = some event → i = j
  answers : ∀ i id, (c.threads i).hist.answer event = some id →
    c.state.runs.byEventID.lookup event = some id

variable [DecidableEq ι] {env : Env} {a : AgentComponent} {Q : ι → Hist → Outcome → Prop}
  {event : String}

omit [DecidableEq ι] in
/-- A store that has not seen the event has no run for it, where the question is allowed. -/
theorem lookup_of_not_seen (hone : c.OneRunFor event) (hevent : event ≠ "")
    (hi : AsksAlone env event c i) {within : ℤ}
    (hn : (c.threads i).next = some (.runsSeen event within))
    (hseen : c.state.runs.seen (env.clock c.state.tick 0).1 event within = false) :
    c.state.runs.byEventID.lookup event = none := by
  simp only [AsksAlone, hn, true_implies] at hi
  rw [seen, if_neg hevent] at hseen
  cases hlookup : c.state.runs.byEventID.lookup event with
  | none => rfl
  | some id =>
    obtain ⟨run, hrun, -⟩ := (hone.indexed id).mp hlookup
    have hby : c.state.runs.byEvent? event = some run := by
      rw [byEvent?, hlookup]
      exact hrun
    rw [hby] at hseen hi
    have hwindow := hi.2
    simp only [all_some, Bool.or_eq_true, decide_eq_true_eq] at hwindow
    split_ifs at hseen with hpos
    exact absurd (hwindow.resolve_left hpos) (by simp [hseen])

/-- The step in which an actor creates a run for the event: it alone was about to. -/
theorem OneRunFor.step_create (hone : c.OneRunFor event) (hevent : event ≠ "")
    (hc : c.Conforms (protocol a.hasQueue) Q)
    (hn : (c.threads i).next = some (.runsCreate sessionID msg cfg))
    (hmsg : msg.externalEventID = event) : (c.step env a i).OneRunFor event := by
  subst hmsg
  have hpend : (c.threads i).hist.pending = some msg.externalEventID :=
    (hc.guar hn).resolve_left hevent
  have hnone := hone.pending i hpend
  have hnoanswer : ∀ j id, (c.threads j).hist.answer msg.externalEventID ≠ some id :=
    fun j id h => absurd (hnone.symm.trans (hone.answers j id h)) (by simp)
  -- nobody is about to create a run any more
  have hdone : ∀ j, ((c.step env a i).threads j).hist.pending ≠ some msg.externalEventID := by
    intro j hj
    by_cases hji : j = i
    · subst hji
      rw [step_hist hn] at hj
      rcases Hist.note_pending hj with ⟨_, ho, -⟩ | ⟨-, ho⟩
      · exact absurd ho (by simp)
      · exact absurd ho (by simp [Op.creates])
    · rw [step_threads_ne hji] at hj
      exact hji (hone.alone j i hj hpend)
  have hanswer : ∀ j id, ((c.step env a i).threads j).hist.answer msg.externalEventID = some id →
      ∃ run : Run,
        (c.state.exec env (.runsCreate sessionID msg cfg)).1 = (.ok run : Except Err Run) ∧
          run.id = id := by
    intro j id hj
    by_cases hji : j = i
    · subst hji
      rw [step_hist hn] at hj
      rcases Hist.note_answer hj with h | ⟨_, ho, -⟩ | ⟨run, _, _, _, -, -, hr, hid⟩
      · exact absurd h (hnoanswer j id)
      · exact absurd ho (by simp)
      · exact ⟨run, eq_of_heq hr, hid⟩
    · rw [step_threads_ne hji] at hj
      exact absurd hj (hnoanswer j id)
  rcases hr : (c.state.exec env (.runsCreate sessionID msg cfg)).1 with e | run
  · rcases c.state.exec_create env sessionID msg cfg with ⟨_, -, -, hs⟩ | ⟨t, -, hok, -⟩
    · refine ⟨?_, fun j hj => absurd hj (hdone j), fun j _ hj => absurd hj (hdone j), ?_⟩
      · rw [step_state hn, hs]
        exact hone.indexed
      · intro j id hj
        obtain ⟨run, hok, -⟩ := hanswer j id hj
        exact absurd (hr.symm.trans hok) (by simp)
    · exact absurd (hr.symm.trans hok) (by simp)
  · obtain ⟨hindexed, hlookup⟩ :=
      World.exec_create_indexes hone.indexed hevent hnone hr
    refine ⟨?_, fun j hj => absurd hj (hdone j), fun j _ hj => absurd hj (hdone j), ?_⟩
    · rw [step_state hn]
      exact hindexed
    · intro j id hj
      obtain ⟨run', hok, hid⟩ := hanswer j id hj
      obtain rfl : run = run' := Except.ok.inj (hr.symm.trans hok)
      rw [step_state hn, hlookup, hid]

/-- Every other step leaves the event's run alone. -/
theorem OneRunFor.step_other (hone : c.OneRunFor event) (hevent : event ≠ "")
    (hc : c.Conforms (protocol a.hasQueue) Q) (hknow : c.AllKnow) (hi : AsksAlone env event c i)
    (hn : (c.threads i).next = some o) (hno : ¬ o.CreatesFor event) :
    (c.step env a i).OneRunFor event := by
  have hlookup : (c.step env a i).state.runs.byEventID.lookup event =
      c.state.runs.byEventID.lookup event := by
    rw [step_state hn]
    exact World.exec_lookup hone.indexed (hc.guar hn) (hknow i) hno
  -- whoever is about to create a run was before, or just asked
  have hpending : ∀ j, ((c.step env a i).threads j).hist.pending = some event →
      (c.threads j).hist.pending = some event ∨ j = i ∧
        c.state.runs.byEventID.lookup event = none ∧
        ∀ k, k ≠ i → (c.threads k).hist.pending ≠ some event := by
    intro j hj
    by_cases hji : j = i
    · subst hji
      rw [step_hist hn] at hj
      rcases Hist.note_pending hj with ⟨within, rfl, hr⟩ | ⟨h, -⟩
      · refine .inr ⟨rfl, lookup_of_not_seen hone hevent hi hn (eq_of_heq hr), ?_⟩
        simp only [AsksAlone, hn, true_implies] at hi
        exact hi.1
      · exact .inl h
    · rw [step_threads_ne hji] at hj
      exact .inl hj
  refine ⟨fun id => ?_, fun j hj => ?_, fun j k hj hk => ?_, fun j id hj => ?_⟩
  · rw [hlookup, step_state hn, World.exec_hasRunFor (hc.guar hn) (hknow i) hno]
    exact hone.indexed id
  · rw [hlookup]
    rcases hpending j hj with h | ⟨-, h, -⟩
    · exact hone.pending j h
    · exact h
  · rcases hpending j hj with h | ⟨rfl, -, h⟩ <;> rcases hpending k hk with h' | ⟨rfl, -, h'⟩
    · exact hone.alone j k h h'
    · by_contra hne
      exact h' j hne h
    · by_contra hne
      exact h k (fun he => hne he.symm) h'
    · rfl
  · rw [hlookup]
    by_cases hji : j = i
    · subst hji
      rw [step_hist hn] at hj
      rcases Hist.note_answer hj with h | ⟨run, rfl, hr, hid⟩ | ⟨_, _, _, _, ho, he, -, -⟩
      · exact hone.answers j id h
      · rw [← hid]
        exact (find?_of_findByExternalEvent
          (c.state.of_faulty_ok env (eq_of_heq hr))).1
      · exact absurd ⟨_, _, _, ho, he⟩ hno
    · rw [step_threads_ne hji] at hj
      exact hone.answers j id hj

theorem OneRunFor.step (hone : c.OneRunFor event) (hevent : event ≠ "")
    (hc : c.Conforms (protocol a.hasQueue) Q) (hknow : c.AllKnow) (hi : AsksAlone env event c i) :
    (c.step env a i).OneRunFor event := by
  cases hn : (c.threads i).next with
  | none => rwa [step_of_next_none hn]
  | some o =>
    by_cases ho : o.CreatesFor event
    · obtain ⟨_, _, _, rfl, hmsg⟩ := ho
      exact hone.step_create hevent hc hn hmsg
    · exact hone.step_other hevent hc hknow hi hn ho

omit [DecidableEq ι] in
theorem start_oneRunFor (a : AgentComponent) (actors : ι → Actor) {w : World}
    (hw : w.runs.IndexedFor event) : (System.start a actors w).OneRunFor event := by
  have hhist : ∀ i, ((System.start a actors w).threads i).hist.pending = none ∧
      ((System.start a actors w).threads i).hist.answer = fun _ => none := by
    intro i
    simp only [System.start, Actor.hist]
    split <;> exact ⟨rfl, rfl⟩
  refine ⟨hw, fun i h => ?_, fun i _ h => ?_, fun i id h => ?_⟩
  · exact absurd ((hhist i).1.symm.trans h) (by simp)
  · exact absurd ((hhist i).1.symm.trans h) (by simp)
  · rw [(hhist i).2] at h
    exact absurd h (by simp)

end System

/-- Along every schedule in which no actor asks for the event while another is about to create a
    run for it, nor after its run left the window, the store has at most one run for the event and
    every submission of it that returns a run returns that one. -/
theorem one_run_per_event [DecidableEq ι] (env : Env) (a : AgentComponent) (actors : ι → Actor)
    (w : World) (sched : List ι) (event : String) (hevent : event ≠ "")
    (hw : w.runs.IndexedFor event)
    (hmeets : (System.start a actors w).Meets env a (System.AsksAlone env event) sched) :
    ∃ runID,
      (∀ id, ((System.start a actors w).after env a sched).state.runs.HasRunFor event id →
        id = runID) ∧
      ∀ i msg run, actors i = .submit msg → msg.externalEventID = event →
        (((System.start a actors w).after env a sched).threads i).result = some (.ok (some run)) →
        run.id = runID := by
  have hinv := hmeets.inv (I := fun c => c.Conforms (protocol a.hasQueue)
      (fun i => (actors i).Post) ∧ System.AllKnow c ∧ System.OneRunFor event c)
    (fun c i hc hi => ⟨hc.1.step i, hc.2.1.step hc.1 i, hc.2.2.step hevent hc.1 hc.2.1 hi⟩)
    ⟨System.start_conforms a actors w, System.start_allKnow a actors w,
      System.start_oneRunFor a actors hw⟩
  obtain ⟨hconf, -, hone⟩ := hinv
  have hanswer : ∀ i msg run, actors i = .submit msg → msg.externalEventID = event →
      (((System.start a actors w).after env a sched).threads i).result = some (.ok (some run)) →
      ((System.start a actors w).after env a sched).state.runs.byEventID.lookup event =
        some run.id := by
    intro i msg run hactor hmsg hresult
    have hpost := hconf.result hresult
    rw [hactor] at hpost
    exact hone.answers i run.id (hmsg ▸ hpost run rfl)
  refine ⟨(((System.start a actors w).after env a sched).state.runs.byEventID.lookup event).getD "",
    fun id hid => ?_, fun i msg run hactor hmsg hresult => ?_⟩
  · have hlookup := (hone.indexed id).mpr hid
    exact (congrArg (Option.getD · "") hlookup).symm
  · rw [hanswer i msg run hactor hmsg hresult]
    rfl

/-- Two deliveries of one event. -/
def redelivered : Fin 2 → Actor := fun _ =>
  .submit { sessionKey := "chat", externalEventID := "evt-1" }

def afterRedelivery (sched : List (Fin 2)) : System (Fin 2) :=
  (System.start plainAgent redelivered .empty).after Env.ticking plainAgent sched

theorem RunStore.indexedFor_empty (event : String) : ({} : RunStore).IndexedFor event := by
  intro id
  refine ⟨fun h => absurd h (by simp), ?_⟩
  rintro ⟨run, h, -⟩
  exact absurd h (by simp [find?])

/-- The id of the run an actor returned. -/
def System.returned (c : System ι) (i : ι) : Option String :=
  match (c.threads i).result with
  | some (.ok (some run)) => some run.id
  | _ => none

/-- The deliveries come one after the other. -/
theorem redelivery_finds_run :
    let c := afterRedelivery (List.replicate 9 0 ++ List.replicate 3 1)
    c.returned 1 = some (runID 1) ∧
    ∃ r, (∀ id, c.state.runs.HasRunFor "evt-1" id → id = r) ∧
      ∀ i msg run, redelivered i = .submit msg → msg.externalEventID = "evt-1" →
        (c.threads i).result = some (.ok (some run)) → run.id = r :=
  ⟨by decide +kernel, one_run_per_event Env.ticking plainAgent redelivered .empty _ "evt-1"
    (by decide) (RunStore.indexedFor_empty "evt-1") (by decide +kernel)⟩

/-- Both deliveries ask before either creates, and each gets a run of its own. -/
theorem redelivery_creates_second_run :
    let c := afterRedelivery ([0, 0, 1, 1] ++ List.replicate 7 0 ++ List.replicate 7 1)
    c.returned 0 = some (runID 1) ∧ c.returned 1 = some (runID 2) ∧
    runID 1 ≠ runID 2 := by
  decide +kernel

end Hopclaw
