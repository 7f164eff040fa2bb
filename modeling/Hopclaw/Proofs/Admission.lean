import Hopclaw.Proofs.Execution
import Hopclaw.Proofs.Submission

/-! # What a submission does to the session's queue

`Submit` in an environment without faults: which waiting runs keep their places, and where the new
run ends up. Under `interrupt` it cancels the runs of one page of the session's runs, newest first,
and then empties the queue whether or not the page reached every waiting run. -/

namespace Hopclaw

open List Interleaving Prog RunStore SessionQueue World

variable {env : Env}

/-! ## The page of an interrupting run -/

/-- An element of a sorted list is among its first `n`, if at most `n` elements sort no later. -/
theorem mem_take_of_pairwise {α : Type} {r : α → α → Prop} [DecidableRel r] {l : List α}
    (hl : l.Pairwise r) {x : α} (hrefl : r x x) (hx : x ∈ l) {n : ℕ}
    (hn : (l.filter fun y => r y x).length ≤ n) : x ∈ l.take n := by
  induction l generalizing n with
  | nil => exact absurd hx (by simp)
  | cons y rest ih =>
    obtain ⟨hy, hrest⟩ := pairwise_cons.mp hl
    have hyx : r y x := by
      rcases mem_cons.mp hx with rfl | hx
      · exact hrefl
      · exact hy x hx
    rw [filter_cons_of_pos (by simpa using hyx), length_cons] at hn
    obtain ⟨m, rfl⟩ : ∃ m, n = m + 1 := ⟨n - 1, by omega⟩
    rw [take_succ_cons, mem_cons]
    rcases mem_cons.mp hx with rfl | hx
    · exact .inl rfl
    · exact .inr (ih hrest hx (by omega))

/-- The stored runs of the run's session that were updated no earlier than it, itself included. -/
def RunStore.asNewAs (s : RunStore) (run : Run) : List Run :=
  (s.selected { sessionID := run.sessionID }).filter fun other => run.updatedAt ≤ other.updatedAt

variable {run : Run}

theorem RunStore.mem_selected_iff {s : RunStore} {filter : RunListFilter} :
    run ∈ s.selected filter ↔ s.find? run.id = some run ∧
      ((filter.sessionID = "" || run.sessionID = filter.sessionID) &&
        (filter.status.all fun st => run.status = st) && filter.scope.admits run.scope) = true := by
  rw [selected, mem_filter, mem_map]
  refine and_congr_left fun _ => ⟨?_, fun h => ?_⟩
  · rintro ⟨e, he, rfl⟩
    have hl : s.byID.lookup e.1 = some e.2 := AList.mem_lookup_iff.mpr he
    show s.byID.lookup e.2.id = some e.2
    rwa [s.keyed hl]
  · exact ⟨⟨run.id, run⟩, AList.mem_lookup_iff.mp h, rfl⟩

/-- The page of the session reaches every run that has room on it. -/
theorem RunStore.mem_list_of_asNewAs {s : RunStore} {sessionID : String}
    {order : (l : List Run) → { l' : List Run // l'.Perm l }} {limit : ℕ}
    (hstored : s.find? run.id = some run) (hses : run.sessionID = sessionID)
    (hroom : (s.asNewAs run).length ≤ limit) (hlimit : limit > 0) :
    run ∈ (s.list { sessionID, limit } order).runs := by
  subst hses
  have hsel : run ∈ s.selected { sessionID := run.sessionID, limit } :=
    mem_selected_iff.mpr ⟨hstored, by simp⟩
  show run ∈ listOf _ _
  rw [listOf, if_pos hlimit]
  set sorted := (order (s.selected _)).1.insertionSort fun a b => b.updatedAt ≤ a.updatedAt
  have hperm : sorted.Perm (s.selected { sessionID := run.sessionID, limit }) :=
    (perm_insertionSort _ _).trans (order _).2
  refine mem_take_of_pairwise (r := fun a b => b.updatedAt ≤ a.updatedAt) ?_ le_rfl
    (hperm.mem_iff.mpr hsel) ?_
  · exact pairwise_insertionSort _ _
  · exact ((hperm.filter _).length_eq.trans_le hroom)

/-- One more record is at most one more run that is as new. -/
theorem RunStore.asNewAs_length_le {s s' : RunStore} {newID : String}
    (h : ∀ id, id ≠ newID → s'.find? id = s.find? id) (run : Run) :
    (s'.asNewAs run).length ≤ (s.asNewAs run).length + 1 := by
  have hnodup : ((s'.asNewAs run).map Run.id).Nodup :=
    (s'.selected_nodup _).sublist (List.Sublist.map _ filter_sublist)
  have hsub : (s'.asNewAs run).map Run.id ⊆ newID :: (s.asNewAs run).map Run.id := by
    intro id hid
    obtain ⟨other, hother, rfl⟩ := mem_map.mp hid
    obtain ⟨hsel, hnew⟩ := mem_filter.mp hother
    obtain ⟨hfound, hfilter⟩ := mem_selected_iff.mp hsel
    by_cases hne : other.id = newID
    · exact mem_cons.mpr (.inl hne)
    · rw [h other.id hne] at hfound
      exact mem_cons.mpr (.inr (mem_map.mpr ⟨other, mem_filter.mpr
        ⟨mem_selected_iff.mpr ⟨hfound, hfilter⟩, hnew⟩, rfl⟩))
  simpa using (subperm_of_subset hnodup hsub).length_le

/-! ## The interruption -/

/-- The run is stored and not queued. -/
def World.Settled (w : World) (id : String) : Prop :=
  ∃ cur, w.runs.find? id = some cur ∧ cur.status ≠ .queued

variable {accepted : List String} {w w' : World} {a : AgentComponent}

theorem World.Settled.kept {id : String} (h : w.Settled id) (hw : w.Keeps accepted w') :
    w'.Settled id := by
  obtain ⟨cur, hcur, hnq⟩ := h
  rcases hw id cur hcur with ⟨hsame, -⟩ | ⟨new, hnew, hcopy⟩
  · exact ⟨cur, hsame, hnq⟩
  · exact ⟨new, hnew, hcopy.unqueued⟩

/-- Without faults a cancellation cancels its run or does nothing. -/
theorem Cancelled.keeps (hf : env.Faultless) (hq : a.hasQueue = true) {id : String}
    {r : Except Err Run} (h : Cancelled env a id w r w') :
    w.Keeps accepted w' ∧ ∀ run, r = .ok run → w'.Settled id := by
  cases r with
  | ok run =>
    obtain ⟨old, new, hold, hnew, hst, hident, hqueue⟩ := h.ok hf hq run rfl
    have hnq : new.status ≠ .queued := by rw [hst]; simp
    refine ⟨fun id' old' hold' => ?_, fun _ _ => ⟨new, hnew, hnq⟩⟩
    by_cases hid : id' = id
    · subst hid
      obtain rfl := Option.some.inj (hold.symm.trans hold')
      exact .inr ⟨new, hnew, (find?_keyed hnew).trans (find?_keyed hold).symm, hident, hnq⟩
    · exact .inl ⟨(h.others id' hid).trans hold', fun _ hin =>
        hin.finishRun (by rwa [find?_keyed hold']) hqueue⟩
  | error e =>
    obtain ⟨hsame, hqueue, -⟩ := h.error hf e rfl
    refine ⟨fun id' old hold => .inl ⟨?_, fun _ hin => hin.congr hqueue⟩, error_ne⟩
    by_cases hid : id' = id
    · rw [hid, hsame, ← hid, hold]
    · rw [h.others id' hid, hold]

variable (accepted) in
theorem interruptRun_keeps (hf : env.Faultless) (hq : a.hasQueue = true) (id : String) (w : World) :
    (interruptRun a id).run.Ends (exec env) w fun r w' =>
      w.Keeps accepted w' ∧ (r = .ok () → w'.Settled id) := by
  have hcancel : (do let _ ← cancelRun a id : ProcE Unit).run.Ends (exec env) w fun r w' =>
      w.Keeps accepted w' ∧ (r = .ok () → w'.Settled id) ∧
        ∀ e, r = .error e → e.sentinel ≠ some .runCancelled := by
    refine (cancelRun_ends a id w).bindE (fun run w' h => ?_) fun e w' h => ?_
    all_goals obtain ⟨hkeeps, hsettled⟩ : w.Keeps accepted w' ∧ _ := h.keeps hf hq
    · exact ⟨hkeeps, fun _ => hsettled run rfl, nofun⟩
    · exact ⟨hkeeps, nofun, fun _ he => by cases he; exact (h.error hf e rfl).2.2⟩
  refine hcancel.tryCatch (fun _ _ h => ⟨h.1, h.2.1⟩) fun e w' h => ?_
  rw [if_neg (by simpa [Err.is] using h.2.2 e rfl)]
  exact Ends.throwE ⟨h.1, nofun⟩

/-- The page of the session's runs that an interrupting run looks at. -/
def interruptPage (env : Env) (sessionID : String) (w : World) : List Run :=
  (w.runs.list { sessionID, limit := 64 } (env.order w.tick)).runs

/-- An interruption that succeeds leaves no run of the page queued. -/
theorem interruptSessionRuns_keeps (hf : env.Faultless) (hq : a.hasQueue = true)
    {sessionID : String} (hs : NamedID sessionID) (keep : String) (w : World) :
    (interruptSessionRuns a sessionID keep).run.Ends (exec env) w fun r w' =>
      w.Keeps accepted w' ∧ (r = .ok () →
        ∀ item ∈ interrupted keep (interruptPage env sessionID w), w'.Settled item.id) := by
  unfold interruptSessionRuns
  rw [if_neg (by rw [hs.1]; exact hs.2)]
  refine (runsList_ends _ w).bindE ?_ fun _ _ h => ⟨.of_writes_none h.1, nofun⟩
  rintro page w₁ ⟨h1, hpage⟩
  obtain rfl := hpage page rfl
  refine Ends.mono (Ends.forM (I := fun done w' => w.Keeps accepted w' ∧
    ∀ item ∈ done, w'.Settled item.id) (E := fun _ w' => w.Keeps accepted w')
    ⟨.of_writes_none h1, by simp⟩ ?_) ?_
  · intro done item rest w₂ _ hdone
    refine (interruptRun_keeps accepted hf hq item.id w₂).mono fun r w' h => ?_
    cases r with
    | error e => exact hdone.1.trans h.1
    | ok _ =>
      refine ⟨hdone.1.trans h.1, fun other hother => ?_⟩
      rcases mem_append.mp hother with hmem | hmem
      · exact (hdone.2 other hmem).kept h.1
      · rw [mem_singleton.mp hmem]
        exact h.2 rfl
  · intro r w' h
    cases r with
    | ok _ => exact ⟨h.1, fun _ => h.2⟩
    | error e => exact ⟨h, nofun⟩

/-! ## The dispatch -/

section

variable {q q' : SessionQueue} {id other : String} {mode : QueueMode}

theorem SessionQueue.mem_of_enqueue (h : q.enqueue id mode = .ok q') : id ∈ q'.queued := by
  cases mode <;> simp only [enqueue] at h
  all_goals
    try split_ifs at h
    all_goals rw [← Except.ok.inj h]; simp

/-- A waiting run stays in the queue, unless it is replaced as the last one or interrupted. -/
theorem SessionQueue.enqueue_keeps (h : q.enqueue id mode = .ok q') (hmem : other ∈ q.queued)
    (hc : mode = .coalesce → q.queued.getLast? ≠ some other) (hi : mode ≠ .interrupt) :
    other ∈ q'.queued := by
  cases mode with
  | interrupt => exact absurd rfl hi
  | reject | enqueue =>
    simp only [enqueue] at h
    try split_ifs at h
    all_goals rw [← Except.ok.inj h]; simp [hmem]
  | coalesce =>
    simp only [enqueue] at h
    split_ifs at h with hne
    · rw [← Except.ok.inj h]
      have hsplit : q.queued.dropLast ++ [q.queued.getLast hne] = q.queued :=
        dropLast_append_getLast hne
      rw [← hsplit, mem_append, mem_singleton] at hmem
      rcases hmem with hmem | hlast
      · exact mem_append_left _ hmem
      · exact absurd (hlast ▸ List.getLast?_eq_some_getLast hne) (hc rfl)
    · exact absurd hmem (by simp_all)

end

/-- The accepted runs are stored, and those of the session that are queued are neither replaced by
    a coalescing run nor overlooked by an interrupting one. -/
def Spared (env : Env) (accepted : List String) (run : Run) (w : World) : Prop :=
  ∀ id ∈ accepted, ∃ old, w.runs.find? id = some old ∧
    (run.status = .queued → old.status = .queued → old.sessionID = run.sessionID →
      (run.queueMode = .coalesce →
        (w.queue.queues run.sessionID).queued.getLast? ≠ some id) ∧
      (run.queueMode = .interrupt →
        old ∈ interrupted run.id (interruptPage env run.sessionID w)))

variable {session : Session}

theorem dispatchSubmittedRun_keeps (hf : env.Faultless) (hq : a.hasQueue = true)
    (hs : NamedID session.id) (hses : run.sessionID = session.id)
    (hspared : Spared env accepted run w) :
    (dispatchSubmittedRun a session run).run.Ends (exec env) w fun r w' =>
      w.Keeps accepted w' ∧ (r = .ok () → run.status = .queued → w'.InQueue run) := by
  have hinterrupt : (ProcE.onlyIf (run.status = .queued && run.queueMode = .interrupt)
      (interruptSessionRuns a session.id run.id)).run.Ends (exec env) w fun r w' =>
      w.Keeps accepted w' ∧ (run.queueMode ≠ .interrupt → w'.queue = w.queue) ∧
        (r = .ok () → run.status = .queued → run.queueMode = .interrupt →
          ∀ item ∈ interrupted run.id (interruptPage env run.sessionID w), w'.Settled item.id) := by
    rw [hses]
    refine onlyIfE_ends (fun hc => ?_) fun hc => ?_
    · simp only [Bool.and_eq_true, decide_eq_true_eq] at hc
      exact (interruptSessionRuns_keeps hf hq hs run.id w).mono fun r w' h =>
        ⟨h.1, fun hne => absurd hc.2 hne, fun hr _ _ => h.2 hr⟩
    · exact ⟨.of_writes_none (.refl w none), fun _ => rfl, fun _ h1 h2 => by simp [h1, h2] at hc⟩
  refine hinterrupt.bindE ?_ fun _ _ h => ⟨h.1, by rintro ⟨⟩⟩
  rintro _ w₁ ⟨h1, hidle, hsettled⟩
  have henqueue : (ProcE.onlyIf (a.hasQueue && run.status = .queued)
      (ProcE.queueEnqueue session.id run.id run.queueMode)).run.Ends (exec env) w₁
      fun r w' => w₁.Keeps accepted w' ∧ (r = .ok () → run.status = .queued → w'.InQueue run) := by
    refine onlyIfE_ends (fun hc => ?_) fun hc => ?_
    case refine_2 =>
      exact ⟨.of_writes_none (.refl w₁ none), fun _ hqueued => by simp [hq, hqueued] at hc⟩
    have hqueued : run.status = .queued := by simpa [hq] using hc
    have hruns := (w₁.exec_writes env (.queueEnqueue session.id run.id run.queueMode)).runs
      (by rintro ⟨⟩)
    rw [← hses] at hruns ⊢
    rcases w₁.exec_enqueue env run.sessionID run.id run.queueMode with
      ⟨e, -, hr, hqueue⟩ | ⟨q, hen, -, hqueue⟩
    · exact ⟨.of_writes_none ⟨fun _ => hruns, fun _ => hqueue⟩, fun hok => by cases hr.symm.trans hok⟩
    refine ⟨fun id old hold => ?_, fun _ _ => .inr ?_⟩
    case refine_2 =>
      refine (?_ : run.id ∈ ((w₁.exec env (.queueEnqueue run.sessionID run.id
        run.queueMode)).2.queue.queues run.sessionID).queued)
      rw [hqueue, Coordinator.set_queues_self]
      exact mem_of_enqueue hen
    by_cases hold_queued : old.status = .queued
    case neg => exact .inr ⟨old, hruns ▸ hold, rfl, ⟨rfl, rfl⟩, hold_queued⟩
    refine .inl ⟨hruns ▸ hold, fun hid hin => ?_⟩
    by_cases hsame : old.sessionID = run.sessionID
    case neg => exact hin.of_ne hqueue hsame
    -- the run waited when the submission began
    obtain ⟨first, hfirst, hspare⟩ := hspared id hid
    obtain rfl : first = old := by
      rcases h1 id first hfirst with ⟨hkept, -⟩ | ⟨new, hnew, hcopy⟩
      · exact Option.some.inj (hkept.symm.trans hold)
      · obtain rfl := Option.some.inj (hnew.symm.trans hold)
        exact absurd hold_queued hcopy.unqueued
    obtain ⟨hcoalesce, hpage⟩ := hspare hqueued hold_queued hsame
    obtain rfl := find?_keyed hold
    have hmode : run.queueMode ≠ .interrupt := fun hm => by
      obtain ⟨cur, hcur, hnq⟩ := hsettled rfl hqueued hm first (hpage hm)
      exact hnq (Option.some.inj (hcur.symm.trans hold) ▸ hold_queued)
    rw [← hidle hmode] at hcoalesce
    refine (?_ : (w₁.exec env (.queueEnqueue run.sessionID run.id run.queueMode)).2.InQueue first)
    rw [World.InQueue, hsame] at hin
    rw [World.InQueue, hqueue, hsame, Coordinator.set_queues_self]
    rcases hin with hactive | hwaits
    · exact .inl ((enqueue_active hen).trans hactive)
    · exact .inr (enqueue_keeps hen hwaits hcoalesce hmode)
  refine henqueue.bindE (fun _ w₂ h2 => ?_) fun _ _ h => ⟨h1.trans h.1, by rintro ⟨⟩⟩
  refine Ends.mono ((idle_emitSubmittedRunEvents run).ends w₂ |>.bind
    (R := fun r w' => r = .ok () ∧ w₂.Writes none w') fun _ _ h => ⟨rfl, h⟩) ?_
  rintro r w₃ ⟨rfl, h3⟩
  exact ⟨(h1.trans h2.1).trans (.of_writes_none h3), fun _ hqueued =>
    (h2.2 rfl hqueued).congr (h3.queue (by rintro ⟨⟩))⟩

/-! ## The whole call -/

/-- The triage of the message finds that input is missing. -/
def asksInput (a : AgentComponent) (msg : IncomingMessage) (session : Session) : Bool :=
  (a.triage msg session).2.any RunPreflightReport.blocking && (a.triage msg session).1 ≠ .watch

variable {msg : IncomingMessage}

theorem analyzeSubmitRun_of_asksInput (hq : run.status = .queued)
    (h : asksInput a msg session = true) :
    (analyzeSubmitRun a msg session run).status = .waitingInput := by
  have hvalid : (triaged a msg session run).status.validTransition .waitingInput = true := by
    rw [show (triaged a msg session run).status = .queued from hq]
    decide
  have hblocking : ((triaged a msg session run).preflight.any RunPreflightReport.blocking &&
      (triaged a msg session run).executionMode ≠ .watch) = true := h
  unfold analyzeSubmitRun
  rw [if_pos hblocking, transitionRun_of_valid _ _ hvalid]
  rfl

/-- The submission makes a new run that is to wait in the queue. -/
def EntersQueue (env : Env) (a : AgentComponent) (msg : IncomingMessage) (w : World) : Prop :=
  ¬ StoresNoRun env a msg w ∧ asksInput a msg (w.sessionFor env a msg) = false

instance (env : Env) (a : AgentComponent) (msg : IncomingMessage) (w : World) :
    Decidable (EntersQueue env a msg w) :=
  inferInstanceAs (Decidable (_ ∧ _))

/-- The prepared run has the status the analysis gave it. -/
theorem prepareSubmit_status (a : AgentComponent) (msg : IncomingMessage) (session : Session)
    (run : Run) (w : World) :
    (prepareSubmit a msg session run).run.Ends (exec env) w fun r _ =>
      ∀ run', r = .ok run' → run'.status = (analyzeSubmitRun a msg session run).status := by
  have htrivial : ∀ {α : Type} (p : ProcE α) (w : World),
      p.run.Ends (exec env) w fun _ _ => True := fun _ _ => trivial
  refine (htrivial _ w).bindE (fun _ w₁ _ => ?_) fun _ _ _ _ hr => nomatch hr
  refine (runsUpdate_ends _ w₁).bindE (fun run₂ w₂ h2 => ?_) fun _ _ _ _ hr => nomatch hr
  refine (htrivial _ w₂).bindE (fun _ w₃ _ => ?_) fun _ _ _ _ hr => nomatch hr
  refine (runsUpdate_ends _ w₃).mono fun r w₄ h4 run' hr => ?_
  rw [Run.status_of_unplanned (h4.1.copy run' hr)]
  exact (Run.status_of_unplanned (h2.1.copy run₂ rfl) : run₂.status = _)

/-- What a submission needs to leave the accepted runs in their places. -/
def SparedBy (env : Env) (a : AgentComponent) (msg : IncomingMessage) (accepted : List String)
    (w : World) : Prop :=
  ∀ id ∈ accepted, ∃ old, w.runs.find? id = some old ∧
    (EntersQueue env a msg w → old.status = .queued →
      old.sessionID = (w.sessionFor env a msg).id →
      (a.config.queueMode = .coalesce →
        (w.queue.queues old.sessionID).queued.getLast? ≠ some id) ∧
      (a.config.queueMode = .interrupt → (w.runs.asNewAs old).length ≤ 63))

/-- The runs accepted before are spared by the dispatch of the prepared run. -/
theorem SparedBy.prepared {new : Run} {w₁ w₂ : World} (h : SparedBy env a msg accepted w)
    (hstores : ¬ StoresNoRun env a msg w) (h1 : CreatedRun env a msg w session run w₁)
    (h2 : Prepared run w₁ (.ok new) w₂)
    (hstatus : new.status = (analyzeSubmitRun a msg session run).status)
    (hpending : run.Pending new) : Spared env accepted new w₂ := by
  intro id hid
  obtain ⟨t, rfl⟩ := h1.run_eq
  obtain ⟨old, hold, hspare⟩ := h id hid
  have hnew : new.id = runID (w.runs.nextID + 1) := find?_keyed (h2.stored new rfl)
  have hothers : ∀ id, id ≠ new.id → w₂.runs.find? id = w.runs.find? id := by
    rw [hnew]
    exact fun id hne => (h2.others id hne).trans (h1.others id hne)
  have hne : id ≠ new.id := by
    rintro rfl
    rw [hnew] at hold
    exact absurd (hold.symm.trans w.runs.find?_fresh) nofun
  have hses : new.sessionID = (w.sessionFor env a msg).id := by
    rw [← h1.session_eq]
    exact hpending.identity.2
  have hmode : new.queueMode = a.config.queueMode := hpending.queueMode
  refine ⟨old, (hothers id hne).trans hold, fun hq hqueued hsame => ?_⟩
  -- a run that waits for input is not entered into the queue
  have hasks : asksInput a msg session = false := by
    by_contra hasks
    rw [analyzeSubmitRun_of_asksInput rfl (by simpa using hasks)] at hstatus
    exact absurd (hq.symm.trans hstatus) (by simp)
  obtain ⟨hcoalesce, hroom⟩ := hspare ⟨hstores, h1.session_eq ▸ hasks⟩ hqueued (hsame.trans hses)
  rw [hmode, h2.queue, h1.queue, ← hsame]
  refine ⟨hcoalesce, fun hm => mem_filter.mpr ⟨?_, ?_⟩⟩
  · obtain rfl := find?_keyed hold
    refine mem_list_of_asNewAs ((hothers _ hne).trans hold) rfl ?_ (by decide)
    exact (asNewAs_length_le hothers old).trans (by have := hroom hm; omega)
  · simp [find?_keyed hold, hne, hqueued, RunStatus.terminal]

/-- A submission without faults keeps the accepted runs it spares, and a run it creates is in the
    queue if it is queued. -/
theorem submit_keeps (hf : env.Faultless) (hq : a.hasQueue = true)
    (hspared : SparedBy env a msg accepted w) : (submit a msg).run.Ends (exec env) w
      fun r w' => w.Keeps accepted w' ∧ ∀ run, r = .ok run → w.runs.find? run.id = none →
        w'.runs.find? run.id = some run ∧ (run.status = .queued → w'.InQueue run) := by
  refine submit_ends a msg (fun _ r w' hw hr => ⟨.of_writes_none hw, fun run h hnone => ?_⟩) ?_
  · exact absurd ((hr run h).symm.trans hnone) nofun
  intro hstores session run w₁ h1
  obtain ⟨t, rfl⟩ := id h1.run_eq
  -- what was stored before is left alone until the dispatch
  have hkeeps : ∀ {r w₂}, Prepared (w.runs.newRun t session.id msg a.config) w₁ r w₂ →
      w.Keeps accepted w₂ := by
    intro r w₂ h2 id old hold
    have hne : id ≠ (w.runs.newRun t session.id msg a.config).id := by
      rintro rfl
      exact absurd (hold.symm.trans w.runs.find?_fresh) nofun
    exact .inl ⟨(h2.others id hne).trans ((h1.others id hne).trans hold), fun _ hin =>
      hin.congr (h2.queue.trans h1.queue)⟩
  rw [submitCreated_eq]
  refine ((prepareSubmit_ends a msg session h1.stored rfl).and
    (prepareSubmit_status a msg session _ w₁)).bindE ?_ fun _ _ h => ⟨hkeeps h.1, error_ne⟩
  rintro new w₂ ⟨h2, hstatus⟩
  have hstored := h2.stored new rfl
  have hpending : (w.runs.newRun t session.id msg a.config).Pending new := by
    obtain ⟨new', hnew', hpending⟩ := h2.record
    rwa [Option.some.inj (hstored.symm.trans hnew')]
  have hnamed : NamedID session.id := by
    rw [h1.session_eq]
    exact w.sessionFor_named env a msg
  rw [← find?_keyed hstored] at hstored
  have hsp := hspared.prepared hstores h1 h2 (hstatus new rfl) hpending
  refine ((dispatchSubmittedRun_keeps hf hq hnamed hpending.identity.2 hsp).and
    (dispatchSubmittedRun_kept a session new w₂)).bindE (fun _ w₃ h3 => Ends.pureE ?_)
    fun _ _ h => ⟨(hkeeps h2).trans h.1.1, error_ne⟩
  refine ⟨(hkeeps h2).trans h3.1.1, fun run hr _ => ?_⟩
  cases hr
  exact ⟨h3.2.trans hstored, h3.1.2 rfl⟩

end Hopclaw
