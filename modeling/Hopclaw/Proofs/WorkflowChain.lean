import Hopclaw.Workflow.Chain

/-! # Bounds on a chain of continuations

The limits of a workflow budget are checked before each round, when a run yields, and before a
continuation is created, on a state that is copied from run to run. What the checks read of a state
besides the limits is its *view*; one lemma for each function says what it does to the view, and the
bounds follow by induction over the events of a chain. -/

namespace Hopclaw

open GoStrings Interleaving WorkflowState

variable {F : Type} [FloatOps F]

/-! ## Views -/

/-- The limits are set. -/
structure Limits (p : WorkflowBudgetPolicy F) (M : ℤ) : Prop where
  hardContinuations : 0 < p.hardContinuations
  hardTotalRounds : 0 < p.hardTotalRounds
  maxNoProgress : 0 < p.circuit.maxNoProgressContinuations
  maxContinuations : 0 < M

/-- What the bounds depend on besides the limits. -/
structure WorkflowView (F : Type) [FloatOps F] where
  index : ℤ
  rounds : ℤ
  yielded : Bool
  circuit : WorkflowCircuitBreakerState F
  lastCompleted : ℤ

/-- The state has these limits and this view. -/
def WorkflowState.Shows (ws : WorkflowState F) (p : WorkflowBudgetPolicy F) (M : ℤ)
    (v : WorkflowView F) : Prop :=
  ∃ b, ws.budget = some b ∧ b.policy = p ∧ ws.maxContinuations = M ∧
    v = ⟨ws.continuationIndex, ws.totalRoundsUsed, ws.yielded, b.circuit,
      b.usage.lastCompletedTaskCount⟩

variable {reason : String} {parent : WorkflowState F}

section Views

variable {ws : WorkflowState F} {v : WorkflowView F} {p : WorkflowBudgetPolicy F} {M : ℤ}
  {records : Option (List (UsageRecord F))} {now : Time}

theorem ensuredPolicy_eq (hc : 0 < p.hardContinuations) (hr : 0 < p.hardTotalRounds) :
    ws.ensuredPolicy p = p := by
  have hempty : p.empty = false := by
    have hne : p.hardContinuations ≠ 0 := by omega
    simp [WorkflowBudgetPolicy.empty, hne]
  unfold ensuredPolicy
  simp only [hempty, Bool.false_eq_true, if_false]
  rw [if_neg (by omega), if_neg (by omega)]

theorem ensureBudget_maxContinuations (h : 0 < ws.maxContinuations) (now : Time) :
    (ws.ensureBudget now).maxContinuations = ws.maxContinuations :=
  if_neg fun hle => absurd h (Int.not_lt.mpr hle.1)

/-- There is one reason to stop. -/
theorem budgetStopReason_cases (ws : WorkflowState F) (now : Time) :
    ws.budgetStopReason now = "" ∨ ws.budgetStopReason now = yieldReasonBudgetHardLimit := by
  unfold budgetStopReason
  split_ifs
  · exact .inr rfl
  · exact .inr rfl
  · split
    · exact .inl rfl
    · split_ifs
      · exact .inr rfl
      · exact .inl rfl

/-! ## Observations -/

/-- A circuit that was not half open opens, or the counter of continuations without progress is
    within its limit. -/
theorem switchedCircuit_spec (ws : WorkflowState F) (b : WorkflowBudgetState F)
    {c : WorkflowCircuitBreakerState F} (hstate : c.state = .closed) (now : Time) :
    (switchedCircuit ws b c now).noProgressContinuations = c.noProgressContinuations ∧
      ((switchedCircuit ws b c now).state = .opened ∨
        (switchedCircuit ws b c now).state = .closed ∧
          (0 < b.policy.circuit.maxNoProgressContinuations →
            c.noProgressContinuations ≤ b.policy.circuit.maxNoProgressContinuations)) := by
  unfold switchedCircuit
  rw [if_neg (by simp [hstate])]
  split
  · exact ⟨rfl, .inl rfl⟩
  split
  · exact ⟨rfl, .inl rfl⟩
  split
  · exact ⟨rfl, .inl rfl⟩
  rename_i hprogress _ _
  refine ⟨rfl, .inr ⟨hstate, fun hpos => ?_⟩⟩
  simp only [workflowCircuitNoProgressTrips, Bool.and_eq_true, decide_eq_true_eq, not_and,
    Int.not_lt] at hprogress
  exact hprogress hpos

/-- The circuit after a yield of the continuation `index` was observed, with the number of tasks
    completed at the last observation and now. -/
structure Observed (p : WorkflowBudgetPolicy F) (c c' : WorkflowCircuitBreakerState F)
    (index last completed : ℤ) : Prop where
  index : c'.lastObservedContinuationIndex = index
  noProgress : c'.noProgressContinuations =
    if last < completed then 0 else c.noProgressContinuations + 1
  state : c'.state = .opened ∨ c'.state = .closed ∧
    (0 < p.circuit.maxNoProgressContinuations →
      c'.noProgressContinuations ≤ p.circuit.maxNoProgressContinuations)

/-- An observation is made unless the circuit is open or the continuation was observed before. -/
theorem updateCircuitBreakerObservation_spec (ws : WorkflowState F) {b : WorkflowBudgetState F}
    (hstate : b.circuit.state = .unset ∨ b.circuit.state = .closed)
    (hobserved : b.observedAt ws.continuationIndex = false)
    (hreason : trimSpace ws.yieldReason ≠ "") (now : Time) :
    ∃ c, updateCircuitBreakerObservation ws b now =
        { b with
          usage := { b.usage with lastCompletedTaskCount := b.usage.completedTaskCount }
          circuit := c } ∧
      Observed b.policy b.circuit c ws.continuationIndex b.usage.lastCompletedTaskCount
        b.usage.completedTaskCount := by
  have hclosed : (if b.circuit.state = .unset then WorkflowCircuitState.closed
      else b.circuit.state) = .closed := by
    split_ifs with hunset
    · rfl
    · exact hstate.resolve_left hunset
  unfold updateCircuitBreakerObservation
  dsimp only
  rw [hclosed, if_neg (by decide), if_neg (by rw [Bool.not_eq_true]; exact hobserved)]
  set b₁ : WorkflowBudgetState F := { b with circuit := { b.circuit with state := .closed } }
  obtain ⟨hcount, hswitch⟩ := switchedCircuit_spec ws b₁ (c := observedCounters ws b₁) rfl now
  refine ⟨_, rfl, rfl, hcount.trans ?_, hcount ▸ hswitch⟩
  simp only [observedCounters, WorkflowBudgetState.progressMade, decide_eq_true_eq]
  congr 1
  exact if_pos (by simp [hreason])

/-- The view of a run that was not observed so far. -/
def WorkflowView.Unobserved (v : WorkflowView F) : Prop :=
  v.circuit.lastObservedContinuationIndex < v.index ∨
    v.circuit.lastObservedTotalRounds = 0 ∧ v.circuit.lastObservedModelTokens = 0 ∧
      v.circuit.lastObservedYieldReason = "" ∧ v.lastCompleted = 0 ∧ v.circuit.openedAt = 0

/-- Counting the usage anew keeps what was observed. -/
theorem resyncedUsage_lastCompleted (u : WorkflowBudgetUsage F) (index : ℤ)
    (records : List (UsageRecord F)) (now : Time) :
    (resyncedUsage u index records now).lastCompletedTaskCount = u.lastCompletedTaskCount := by
  have hone : ∀ (acc : WorkflowBudgetUsage F × Time) (rec : UsageRecord F),
      (resyncOne acc rec).1.lastCompletedTaskCount = acc.1.lastCompletedTaskCount := by
    intro acc rec
    unfold resyncOne
    split_ifs <;> rfl
  exact List.foldlRecOn (motive := fun acc : WorkflowBudgetUsage F × Time =>
    acc.1.lastCompletedTaskCount = u.lastCompletedTaskCount) records resyncOne rfl
    fun acc hacc rec _ => (hone acc rec).trans hacc

/-! ## What the functions do to a view -/

variable (hlim : Limits p M) (hv : ws.Shows p M v)
include hlim hv

theorem ensuredBudget_fields (now : Time) :
    (ws.ensuredBudget now).policy = p ∧ (ws.ensuredBudget now).circuit = v.circuit ∧
      (ws.ensuredBudget now).usage.lastCompletedTaskCount = v.lastCompleted := by
  obtain ⟨b, hb, rfl, -, rfl⟩ := hv
  simp only [ensuredBudget, ensuredUsage, hb, Option.getD_some,
    ensuredPolicy_eq hlim.hardContinuations hlim.hardTotalRounds, and_self]

/-- `EnsureBudget` leaves the view alone, whatever budget of the same policy, circuit and count is
    then put into the state. -/
theorem shows_setBudget (now : Time) (b : WorkflowBudgetState F)
    (hp : b.policy = (ws.ensuredBudget now).policy)
    (hc : b.circuit = (ws.ensuredBudget now).circuit)
    (hl : b.usage.lastCompletedTaskCount =
      (ws.ensuredBudget now).usage.lastCompletedTaskCount) :
    ((ws.ensureBudget now).setBudget b).Shows p M v := by
  obtain ⟨hp', hc', hl'⟩ := ensuredBudget_fields hlim hv now
  obtain ⟨_, -, -, hmax, rfl⟩ := hv
  refine ⟨b, rfl, hp.trans hp', ?_, ?_⟩
  · exact (ensureBudget_maxContinuations (hmax ▸ hlim.maxContinuations) now).trans hmax
  · rw [hc, hc', hl, hl']
    rfl

theorem ensureBudget_shows (now : Time) : (ws.ensureBudget now).Shows p M v :=
  shows_setBudget hlim hv now _ rfl rfl rfl

theorem modelUsage_shows (call : ModelUsage F) :
    (updateWorkflowBudgetModelUsage ws call now).Shows p M v :=
  shows_setBudget hlim hv now _ rfl rfl rfl

theorem toolUsage_shows (count duration : ℤ) :
    (updateWorkflowBudgetToolUsage ws count duration now).Shows p M v := by
  unfold updateWorkflowBudgetToolUsage
  split_ifs
  · exact hv
  · exact shows_setBudget hlim hv now _ rfl rfl rfl

/-- Without a reason to stop the limits are not reached. -/
theorem below_of_budgetStopReason (h : ws.budgetStopReason now = "") :
    v.index < p.hardContinuations ∧ v.rounds < p.hardTotalRounds := by
  obtain ⟨b, hb, rfl, -, rfl⟩ := hv
  have hcont : ws.hardContinuations = b.policy.hardContinuations := by
    simp only [hardContinuations, hb]
    exact if_pos hlim.hardContinuations
  have hrounds : ws.hardTotalRounds = b.policy.hardTotalRounds := by
    simp only [hardTotalRounds, hb]
    exact if_pos hlim.hardTotalRounds
  have hne : yieldReasonBudgetHardLimit ≠ "" := by decide
  have hpos := hlim.hardContinuations
  have hpos' := hlim.hardTotalRounds
  unfold budgetStopReason at h
  split_ifs at h with h1 h2
  · exact absurd h hne
  · exact absurd h hne
  · dsimp only
    omega

/-- The decision before a round leaves the view alone. It allows the round only below the limit, and
    with a closed circuit denies it only for the limits. -/
theorem evaluate_spec (plan : Option Planner.Plan) (now : Time) :
    (evaluateWorkflowBudget ws plan now).2.Shows p M v ∧
      ((evaluateWorkflowBudget ws plan now).1.allowCurrentTurn = true →
        v.rounds < p.hardTotalRounds) ∧
      ((evaluateWorkflowBudget ws plan now).1.allowCurrentTurn = false →
        v.circuit.state ≠ .opened →
        (evaluateWorkflowBudget ws plan now).1.yieldReason = yieldReasonBudgetHardLimit) := by
  have hsome : ¬ ws.budget.isNone = true := by
    obtain ⟨b, hb, -⟩ := hv
    simp [hb]
  have hc := (ensuredBudget_fields hlim hv now).2.1
  have hset := shows_setBudget hlim hv now
  simp only [evaluateWorkflowBudget, if_neg hsome]
  rcases budgetStopReason_cases ((ws.ensureBudget now).setBudget (ws.evaluatedBudget plan now)) now
    with hstop | hstop
  · have hbelow := (below_of_budgetStopReason hlim (hset _ rfl rfl rfl) hstop).2
    rw [if_neg (by simp [hstop])]
    cases hstate : (ws.evaluatedBudget plan now).circuit.state with
    | opened => exact ⟨hset _ rfl rfl rfl, fun _ => hbelow, fun _ h => absurd (hc ▸ hstate) h⟩
    | _ => exact ⟨hset _ rfl rfl rfl, fun _ => hbelow, fun h => by cases h⟩
  · rw [if_pos (by rw [hstop]; decide)]
    exact ⟨hset _ rfl rfl rfl, (fun h => by cases h), fun _ _ => hstop⟩

/-- The observation of a run that yields for some reason. -/
theorem observe_spec (hfresh : v.Unobserved)
    (hstate : v.circuit.state = .unset ∨ v.circuit.state = .closed)
    (hreason : trimSpace ws.yieldReason ≠ "") (plan : Option Planner.Plan) (now opened : Time) :
    ∃ c n, (observeWorkflowContinuationOutcome ws plan now opened).Shows p M
        { v with circuit := c, lastCompleted := n } ∧
      ((observeWorkflowContinuationOutcome ws plan now opened).budget.map fun b =>
        b.usage.completedTaskCount) = some n ∧ Observed p v.circuit c v.index v.lastCompleted n := by
  -- the budget that is observed
  set b : WorkflowBudgetState F := { ws.ensuredBudget now with
    usage := { (ws.ensuredBudget now).usage with
      completedTaskCount := ws.completedTaskCount plan } }
  obtain ⟨hp, hc, hl⟩ : b.policy = p ∧ b.circuit = v.circuit ∧
    b.usage.lastCompletedTaskCount = v.lastCompleted := ensuredBudget_fields hlim hv now
  obtain ⟨_, -, -, hmax, hview⟩ := shows_setBudget hlim hv now b rfl rfl rfl
  have hindex : (ws.ensureBudget now).continuationIndex = v.index := by rw [hview]; rfl
  have hobserved : b.observedAt (ws.ensureBudget now).continuationIndex = false := by
    rw [WorkflowBudgetState.observedAt, hc, hl, hindex]
    rcases hfresh with hlt | ⟨h1, h2, h3, h4, h5⟩
    · have hne : v.circuit.lastObservedContinuationIndex ≠ v.index := by omega
      simp [hne]
    · simp [h1, h2, h3, h4, h5]
  obtain ⟨c, heq, hspec⟩ := updateCircuitBreakerObservation_spec (ws.ensureBudget now)
    (by rw [hc]; exact hstate) hobserved hreason opened
  rw [hp, hc, hl, hindex] at hspec
  have hresult : observeWorkflowContinuationOutcome ws plan now opened = (ws.ensureBudget
      now).setBudget (updateCircuitBreakerObservation (ws.ensureBudget now) b opened) := rfl
  rw [hresult, heq]
  exact ⟨c, _, ⟨_, rfl, hp, hmax, by rw [hview]; rfl⟩, rfl, hspec⟩

/-- A run that yields is observed. -/
theorem yield_spec (hfresh : v.Unobserved)
    (hstate : v.circuit.state = .unset ∨ v.circuit.state = .closed) {plan : Option Planner.Plan}
    (hreason : trimSpace (trimSpace reason) ≠ "") {ensured checked observed opened : Time}
    {ws' : WorkflowState F}
    (h : ws.yieldWorkflowRun plan reason ensured checked observed opened = some ws') :
    ∃ c n, ws'.Shows p M { v with yielded := true, circuit := c, lastCompleted := n } ∧
      (ws'.budget.map fun b => b.usage.completedTaskCount) = some n ∧
      Observed p v.circuit c v.index v.lastCompleted n := by
  unfold WorkflowState.yieldWorkflowRun at h
  dsimp only at h
  split_ifs at h
  cases h
  have hshows : (((ws.ensureBudget ensured).clearTerminal.markYielded reason).syncCompletedTaskIDs
      plan).Shows p M { v with yielded := true } := by
    obtain ⟨b, hb, hp, hmax, rfl⟩ := ensureBudget_shows hlim hv ensured
    exact ⟨b, hb, hp, hmax, rfl⟩
  exact observe_spec hlim hshows hfresh hstate hreason plan observed opened

theorem resync_shows (records : Option (List (UsageRecord F))) (now : Time) :
    (resyncWorkflowBudgetUsage ws records now).Shows p M v := by
  cases records with
  | none => exact hv
  | some records =>
    exact shows_setBudget hlim hv now _ rfl rfl (resyncedUsage_lastCompleted _ _ _ _)

/-- A continuation is admitted only with a closed circuit and below the limits. -/
theorem admit_spec (h : admitWorkflowContinuation ws records now = (true, parent)) :
    parent.Shows p M v ∧ v.circuit.state ≠ .opened ∧ v.index < p.hardContinuations := by
  have hresync := resync_shows hlim hv records now
  have hc := (ensuredBudget_fields hlim hresync now).2.1
  unfold admitWorkflowContinuation at h
  dsimp only at h
  split at h
  · cases h
  · next hdeny =>
    cases h
    unfold denyReason at hdeny
    split_ifs at hdeny with hopen hhalf hstop
    exact ⟨shows_setBudget hlim hresync now _ rfl rfl rfl, hc ▸ hopen,
      (below_of_budgetStopReason hlim (ensureBudget_shows hlim hresync now)
        (not_not.mp hstop)).1⟩

/-- A denied continuation leaves the circuit open if it was. -/
theorem denied_circuit (hopen : v.circuit.state = .opened)
    (records : Option (List (UsageRecord F))) (now : Time) :
    ∃ denied b, admitWorkflowContinuation ws records now = (false, denied) ∧
      denied.budget = some b ∧ b.circuit.state = .opened := by
  have hc := (ensuredBudget_fields hlim (resync_shows hlim hv records now) now).2.1
  have hdeny : denyReason ((resyncWorkflowBudgetUsage ws records now).ensureBudget now)
      ((resyncWorkflowBudgetUsage ws records now).ensuredBudget now) now =
      some yieldReasonCircuitBreakerOpen := if_pos (by rw [hc, hopen])
  unfold admitWorkflowContinuation
  dsimp only
  rw [hdeny]
  exact ⟨_, _, rfl, rfl, by simp⟩

/-- The continuation has the view of the run it continues, with the next index. -/
theorem build_shows (summary : String) (now : Time) :
    (buildContinuationWorkflowState ws summary now).Shows p M
      { v with index := v.index + 1, yielded := false } := by
  obtain ⟨b, hb, hp, hmax, rfl⟩ := ensureBudget_shows hlim hv now
  cases hb
  exact ensureBudget_shows hlim (by exact ⟨_, rfl, hp, hmax, rfl⟩) now

end Views

/-! ## Whole chains -/

variable {now : Time}

namespace Chain

variable {p : WorkflowBudgetPolicy F} {M : ℤ} {s : Chain F} {v : WorkflowView F}
  {indices yields : List ℤ} {ws : WorkflowState F} {records : Option (List (UsageRecord F))}

/-- What holds of the latest run from its creation to its last yield, in a chain with these runs and
    yields. -/
structure RunView (indices yields : List ℤ) (v : WorkflowView F) : Prop where
  index : indices.head? = some v.index
  lastCompleted : v.lastCompleted = yields.headD 0
  noProgress : v.circuit.noProgressContinuations = noProgressYields yields

/-- A state of a run that is being executed. -/
structure ActiveView (p : WorkflowBudgetPolicy F) (indices yields : List ℤ) (v : WorkflowView F) :
    Prop extends RunView indices yields v where
  rounds : v.rounds ≤ p.hardTotalRounds
  yielded : v.yielded = false
  notOpen : v.circuit.state = .unset ∨ v.circuit.state = .closed
  within : (noProgressYields yields : ℤ) ≤ p.circuit.maxNoProgressContinuations
  fresh : v.Unobserved

/-- The state of a run that has yielded. -/
structure YieldedView (p : WorkflowBudgetPolicy F) (indices yields : List ℤ) (v : WorkflowView F) :
    Prop extends RunView indices yields v where
  observed : v.circuit.lastObservedContinuationIndex = v.index
  state : v.circuit.state = .opened ∨ v.circuit.state = .closed ∧
    (noProgressYields yields : ℤ) ≤ p.circuit.maxNoProgressContinuations

def Active (p : WorkflowBudgetPolicy F) (M : ℤ) (indices yields : List ℤ) (ws : WorkflowState F) :
    Prop :=
  ∃ v, ws.Shows p M v ∧ ActiveView p indices yields v

theorem Active.rounds (h : Active p M indices yields ws) :
    ws.totalRoundsUsed ≤ p.hardTotalRounds := by
  obtain ⟨_, ⟨_, -, -, -, rfl⟩, hav⟩ := h
  exact hav.rounds

theorem Active.needsContinuation (h : Active p M indices yields ws) :
    ws.needsContinuation = false := by
  obtain ⟨_, ⟨_, -, -, -, rfl⟩, hav⟩ := h
  simp [WorkflowState.needsContinuation, show ws.yielded = false from hav.yielded]

/-- The invariant of a chain. -/
structure Inv (p : WorkflowBudgetPolicy F) (M : ℤ) (s : Chain F) : Prop where
  chained : s.indices.IsChain fun later earlier => later = earlier + 1
  bounded : ∀ i ∈ s.indices, i ≤ min p.hardContinuations M
  rounds : s.ws.totalRoundsUsed ≤ p.hardTotalRounds
  storedRounds : s.stored.totalRoundsUsed ≤ p.hardTotalRounds
  storedMax : s.stored.maxContinuations = M
  streak : (noProgressYields s.yields : ℤ) ≤ p.circuit.maxNoProgressContinuations + 1
  active : s.active = true →
    Active p M s.indices s.yields s.ws ∧ Active p M s.indices s.yields s.stored
  ended : s.active = false → s.stored.needsContinuation = false ∨
    ∃ v, s.stored.Shows p M v ∧ YieldedView p s.indices s.yields v

/-- A run that ends without a continuation. -/
theorem Inv.finish (h : Inv p M s) (hrounds : ws.totalRoundsUsed ≤ p.hardTotalRounds)
    (hmax : ws.maxContinuations = M) (hend : ws.needsContinuation = false) :
    Inv p M (s.finish ws) :=
  { h with
    rounds := hrounds
    storedRounds := hrounds
    storedMax := hmax
    active := fun hactive => by cases hactive
    ended := fun _ => .inl hend }

theorem needsContinuation_markTerminal (ws : WorkflowState F) {outcome : WorkflowTerminalOutcome}
    (h : outcome ≠ .unset) (reason : String) :
    (ws.markTerminal outcome reason).needsContinuation = false := by
  simp [needsContinuation, terminal, markTerminal, h]

theorem Inv.failRun (h : Inv p M s) (error : String) : Inv p M (s.failRun error) :=
  h.finish h.storedRounds h.storedMax (needsContinuation_markTerminal s.stored (by decide) error)

/-- A step of an active run that changes only its states. -/
theorem Inv.update (h : Inv p M s) (hactive : s.active = true) {stored : WorkflowState F}
    (hws : Active p M s.indices s.yields ws) (hstored : Active p M s.indices s.yields stored) :
    Inv p M { s with ws, stored } :=
  { h with
    rounds := hws.rounds
    storedRounds := hstored.rounds
    storedMax := by obtain ⟨_, ⟨_, -, -, hmax, -⟩, -⟩ := hstored; exact hmax
    active := fun _ => ⟨hws, hstored⟩
    ended := fun hend => absurd hactive (by rw [hend]; decide) }

section Steps

variable (hlim : Limits p M) (h : Inv p M s)
include hlim h

/-- A run that yields. -/
theorem Inv.yieldRun (hactive : s.active = true) (plan : Option Planner.Plan)
    (hreason : trimSpace (trimSpace reason) ≠ "") (error : String)
    (ensured checked observed opened : Time) :
    Inv p M (s.yieldRun plan reason error ensured checked observed opened) := by
  unfold Chain.yieldRun
  cases hyield : s.stored.yieldWorkflowRun plan reason ensured checked observed opened with
  | none => exact h.failRun error
  | some ws =>
    obtain ⟨-, v, hv, hav⟩ := h.active hactive
    obtain ⟨c, n, hshows, hn, hobs⟩ := yield_spec hlim hv hav.fresh hav.notOpen hreason hyield
    have hws : ws.totalRoundsUsed = v.rounds := by
      obtain ⟨_, -, -, -, hview⟩ := hshows
      exact (congrArg WorkflowView.rounds hview).symm
    have hcount : (noProgressYields (n :: s.yields) : ℤ) = c.noProgressContinuations := by
      rw [hobs.noProgress, hav.lastCompleted, hav.noProgress, noProgressYields]
      split_ifs <;> simp
    simp only [hn]
    exact
      { h with
        rounds := hws.trans_le hav.rounds
        storedRounds := hws.trans_le hav.rounds
        storedMax := by obtain ⟨_, -, -, hmax, -⟩ := hshows; exact hmax
        streak := by
          have hwithin := hav.within
          simp only [noProgressYields]
          split_ifs <;> push_cast <;> omega
        active := fun hactive => by cases hactive
        ended := fun _ => .inr ⟨_, hshows,
          { index := hav.index
            lastCompleted := rfl
            noProgress := hcount.symm
            observed := hobs.index
            state := hobs.state.imp_right fun hclosed =>
              ⟨hclosed.1, hcount ▸ hclosed.2 hlim.maxNoProgress⟩ }⟩ }

theorem Inv.turn (hactive : s.active = true) (now ensured checked observed opened : Time)
    (plan : Option Planner.Plan) (round : Bool) :
    Inv p M (s.step (.turn now ensured checked observed opened plan round)) := by
  simp only [step, if_pos hactive]
  obtain ⟨-, v, hv, hav⟩ := h.active hactive
  obtain ⟨hshows, hallow, hdeny⟩ := evaluate_spec hlim hv plan now
  have h' := h.update hactive ⟨v, hshows, hav⟩ ⟨v, hshows, hav⟩
  by_cases hturn : (evaluateWorkflowBudget s.stored plan now).1.allowCurrentTurn = true
  · split_ifs
    · -- below the limit before the round, so not above it afterwards
      have htracked : (trackWorkflowExecutionRound
          (evaluateWorkflowBudget s.stored plan now).2).Shows p M
          { v with rounds := v.rounds + 1 } := by
        obtain ⟨b, hb, hp, hmax, rfl⟩ := hshows
        exact ⟨b, hb, hp, hmax, rfl⟩
      exact h.update hactive ⟨_, htracked, { hav with rounds := hallow hturn }⟩ ⟨v, hshows, hav⟩
    · exact h'
  · have hnot : v.circuit.state ≠ .opened := by
      rcases hav.notOpen with hstate | hstate <;> simp [hstate]
    rw [if_neg hturn, if_pos (hdeny (by simpa using hturn) hnot)]
    exact h'.failRun _

theorem Inv.complete (hactive : s.active = true) (observed opened : Time)
    (plan : Option Planner.Plan) :
    Inv p M (s.finish (completeWorkflow s.stored plan observed opened)) := by
  unfold completeWorkflow
  split_ifs
  · refine h.finish h.storedRounds ?_ (needsContinuation_markTerminal _ (by decide) _)
    exact (ensureBudget_maxContinuations (h.storedMax ▸ hlim.maxContinuations) observed).trans
      h.storedMax
  · exact h.finish h.storedRounds h.storedMax (h.active hactive).2.needsContinuation

/-- A denied continuation. -/
theorem Inv.denied {denied : WorkflowState F}
    (hpermit : admitWorkflowContinuation s.stored records now = (false, denied)) :
    Inv p M (s.finish denied) := by
  have hpos : 0 < s.stored.maxContinuations := h.storedMax ▸ hlim.maxContinuations
  have hresync : (resyncWorkflowBudgetUsage s.stored records now).maxContinuations =
      s.stored.maxContinuations := by
    cases records with
    | none => rfl
    | some records => exact ensureBudget_maxContinuations hpos now
  have hrounds : (resyncWorkflowBudgetUsage s.stored records now).totalRoundsUsed =
      s.stored.totalRoundsUsed := by
    cases records <;> rfl
  have hensured := ensureBudget_maxContinuations (hresync ▸ hpos) now
  unfold admitWorkflowContinuation at hpermit
  dsimp only at hpermit
  split at hpermit
  · cases hpermit
    refine h.finish (hrounds.trans_le h.storedRounds) ?_
      (needsContinuation_markTerminal _ (by decide) _)
    exact (ensureBudget_maxContinuations (hensured ▸ hresync ▸ hpos) now).trans
      (hensured.trans (hresync.trans h.storedMax))
  · cases hpermit

/-- An admitted continuation. -/
theorem Inv.continued (hv : s.stored.Shows p M v) (hyv : YieldedView p s.indices s.yields v)
    (hneeds : s.stored.needsContinuation = true)
    (hpermit : admitWorkflowContinuation s.stored records now = (true, parent)) (summary : String)
    (built : Time) : Inv p M { s with
      ws := buildContinuationWorkflowState parent summary built
      stored := buildContinuationWorkflowState parent summary built
      active := true
      indices := (buildContinuationWorkflowState parent summary built).continuationIndex ::
        s.indices } := by
  obtain ⟨hparent, hopen, hbelow⟩ := admit_spec hlim hv hpermit
  have hbuilt := build_shows hlim hparent summary built
  -- the run that yielded was below the limits
  obtain ⟨hrounds, hroom⟩ : v.rounds ≤ p.hardTotalRounds ∧ v.index < M := by
    obtain ⟨_, -, -, rfl, rfl⟩ := hv
    simp only [needsContinuation] at hneeds
    split_ifs at hneeds
    simp only [Bool.and_eq_true, decide_eq_true_eq] at hneeds
    exact ⟨h.storedRounds, hneeds.2⟩
  obtain ⟨hclosed, hwithin⟩ := hyv.state.resolve_left hopen
  have hactive : Active p M ((v.index + 1) :: s.indices) s.yields
      (buildContinuationWorkflowState parent summary built) :=
    ⟨_, hbuilt,
      { index := rfl
        lastCompleted := hyv.lastCompleted
        noProgress := hyv.noProgress
        rounds := hrounds
        yielded := rfl
        notOpen := .inr hclosed
        within := hwithin
        fresh := .inl (by have := hyv.observed; dsimp only; omega) }⟩
  obtain ⟨_, -, -, hmax, hview⟩ := hbuilt
  have hindex : (buildContinuationWorkflowState parent summary built).continuationIndex =
      v.index + 1 := (congrArg WorkflowView.index hview).symm
  rw [hindex]
  exact
    { h with
      chained := by
        obtain ⟨earlier, hearlier⟩ := List.head?_eq_some_iff.mp hyv.index
        have hchained := h.chained
        rw [hearlier] at hchained ⊢
        exact List.isChain_cons_cons.mpr ⟨rfl, hchained⟩
      bounded := by
        intro i hi
        rcases List.mem_cons.mp hi with rfl | hi
        · omega
        · exact h.bounded i hi
      rounds := hactive.rounds
      storedRounds := hactive.rounds
      storedMax := hmax
      active := fun _ => ⟨hactive, hactive⟩
      ended := fun hend => by cases hend }

theorem Inv.check (hactive : ¬ s.active = true) (records : Option (List (UsageRecord F)))
    (now built : Time) (summary : String) (saved : Bool) :
    Inv p M (s.step (.check records now built summary saved)) := by
  simp only [step, if_neg hactive]
  by_cases hneeds : s.stored.needsContinuation = true
  · rw [if_neg (by simp [hneeds])]
    rcases h.ended (by simpa using hactive) with hend | ⟨v, hv, hyv⟩
    · rw [hneeds] at hend
      cases hend
    · split
      · next denied hpermit =>
        split_ifs
        · exact h.denied hlim hpermit
        · exact h
      · next parent hpermit => exact h.continued hlim hv hyv hneeds hpermit summary built
  · rw [if_pos (by simpa using hneeds)]
    exact h

theorem Inv.step (ev : Event F) : Inv p M (s.step ev) := by
  by_cases hactive : s.active = true
  · obtain ⟨⟨v, hv, hav⟩, hstored⟩ := h.active hactive
    cases ev
    case turn now ensured checked observed opened plan round =>
      exact h.turn hlim hactive now ensured checked observed opened plan round
    all_goals simp only [Chain.step, if_pos hactive]
    case check => exact h
    case modelUsage call now =>
      exact h.update hactive ⟨v, modelUsage_shows hlim hv call, hav⟩ hstored
    case toolUsage count duration now =>
      exact h.update hactive ⟨v, toolUsage_shows hlim hv count duration, hav⟩ hstored
    case store => exact h.update hactive ⟨v, hv, hav⟩ ⟨v, hv, hav⟩
    case roundBudget ensured checked observed opened plan error =>
      split_ifs with hplan
      · exact h.yieldRun hlim hactive plan (by decide +kernel) _ ensured checked observed opened
      · exact h.failRun error
    case complete observed opened plan => exact h.complete hlim hactive observed opened plan
    case fail error => exact h.failRun error
    case cancel => exact h.finish h.storedRounds h.storedMax hstored.needsContinuation
  · cases ev with
    | check records now built summary saved =>
      exact h.check hlim hactive records now built summary saved
    | _ =>
      simp only [Chain.step, if_neg hactive]
      exact h

/-! ### An open circuit -/

/-- An open circuit stays open, and no run is added. -/
theorem Inv.open_step (hopen : s.circuitOpen = true) (ev : Event F) :
    (s.step ev).circuitOpen = true ∧ (s.step ev).indices = s.indices := by
  have hstate : ∀ v, s.stored.Shows p M v → v.circuit.state = .opened := by
    rintro v ⟨b, hb, -, -, rfl⟩
    simpa only [circuitOpen, hb, Option.any_some, decide_eq_true_eq] using hopen
  have hended : ¬ s.active = true := by
    intro hactive
    obtain ⟨-, v, hv, hav⟩ := h.active hactive
    rcases hav.notOpen with hnot | hnot <;> simp [hstate v hv] at hnot
  cases ev with
  | check records now built summary saved =>
    simp only [Chain.step, if_neg hended]
    by_cases hneeds : s.stored.needsContinuation = true
    · rw [if_neg (by simp [hneeds])]
      rcases h.ended (by simpa using hended) with hend | ⟨v, hv, hyv⟩
      · rw [hneeds] at hend
        cases hend
      · obtain ⟨denied, b, hpermit, hb, hdenied⟩ :=
          denied_circuit hlim hv (hstate v hv) records now
        rw [hpermit]
        cases saved with
        | true =>
          simp [circuitOpen, Chain.finish, hb, hdenied]
        | false => exact ⟨hopen, rfl⟩
    · rw [if_pos (by simpa using hneeds)]
      exact ⟨hopen, rfl⟩
  | _ =>
    simp only [Chain.step, if_neg hended]
    exact ⟨hopen, trivial⟩

end Steps

theorem Inv.open_run (hlim : Limits p M) (later : List (Event F)) :
    ∀ {s : Chain F}, Inv p M s → s.circuitOpen = true →
      (runAll Chain.step s later).indices = s.indices := by
  induction later with
  | nil => exact fun _ _ => rfl
  | cons ev later ih =>
    intro s h hopen
    obtain ⟨hopen', hindices⟩ := h.open_step hlim hopen ev
    exact (ih (h.step hlim ev) hopen').trans hindices

/-! ### The bounds -/

theorem Inv.of_start (originalRunID : String) (maxContinuations maxTotalRounds : ℤ) (now : Time)
    (hc : 0 < p.hardContinuations) (hr : 0 < p.hardTotalRounds)
    (hm : 0 < p.circuit.maxNoProgressContinuations) :
    ∃ M, Limits p M ∧ Inv p M (start p originalRunID maxContinuations maxTotalRounds now) := by
  set ws : WorkflowState F :=
    { originalRunID, maxContinuations, maxTotalRounds, budget := some { policy := p } }
  have hpolicy : ws.ensuredPolicy p = p := ensuredPolicy_eq hc hr
  have hmax : 0 < (ws.ensureBudget now).maxContinuations := by
    have heq : (ws.ensureBudget now).maxContinuations =
        if maxContinuations ≤ 0 ∧ 0 < (ws.ensuredPolicy p).hardContinuations
        then (ws.ensuredPolicy p).hardContinuations else maxContinuations := rfl
    rw [heq, hpolicy]
    split_ifs with hle
    · exact hc
    · omega
  have hactive : Active p (ws.ensureBudget now).maxContinuations [0] [] (ws.ensureBudget now) :=
    ⟨_, ⟨ws.ensuredBudget now, rfl, hpolicy, rfl, rfl⟩,
      { index := rfl
        lastCompleted := rfl
        noProgress := rfl
        rounds := Int.le_of_lt hr
        yielded := rfl
        notOpen := .inl rfl
        within := by simp only [noProgressYields]; omega
        fresh := .inr ⟨rfl, rfl, rfl, rfl, rfl⟩ }⟩
  refine ⟨(ws.ensureBudget now).maxContinuations, ⟨hc, hr, hm, hmax⟩, ?_⟩
  exact
    { chained := List.IsChain.singleton _
      bounded := by
        intro i hi
        rw [List.mem_singleton.mp hi]
        omega
      rounds := hactive.rounds
      storedRounds := hactive.rounds
      storedMax := rfl
      streak := by simp only [start, noProgressYields]; omega
      active := fun _ => ⟨hactive, hactive⟩
      ended := fun hend => by cases hend }

/-- In every chain whose policy sets the limits, continuation indices go up by one and stay within
    the limits, the rounds stay within theirs, at most one more yield without progress happens than
    the circuit breaker allows for, and no run follows once the circuit is open. -/
theorem continuations_bounded {policy : WorkflowBudgetPolicy F} (originalRunID : String)
    (maxContinuations maxTotalRounds : ℤ) (now : Time) (hc : 0 < policy.hardContinuations)
    (hr : 0 < policy.hardTotalRounds) (hm : 0 < policy.circuit.maxNoProgressContinuations)
    (run : List (Event F)) :
    let s := runAll step (start policy originalRunID maxContinuations maxTotalRounds now) run
    (s.indices.IsChain fun later earlier => later = earlier + 1) ∧
      (∀ i ∈ s.indices, i ≤ min policy.hardContinuations s.stored.maxContinuations) ∧
      s.ws.totalRoundsUsed ≤ policy.hardTotalRounds ∧
      s.stored.totalRoundsUsed ≤ policy.hardTotalRounds ∧
      (noProgressYields s.yields : ℤ) ≤ policy.circuit.maxNoProgressContinuations + 1 ∧
      (s.circuitOpen = true → ∀ later, (runAll step s later).indices = s.indices) := by
  intro s
  obtain ⟨M, hlim, hstart⟩ := Inv.of_start originalRunID maxContinuations maxTotalRounds now
    hc hr hm
  have h : Inv policy M s := runAll_inv step (fun _ ev h => h.step hlim ev) hstart run
  refine ⟨h.chained, fun i hi => ?_, h.rounds, h.storedRounds, h.streak, fun hopen later => ?_⟩
  · rw [h.storedMax]
    exact h.bounded i hi
  · exact Inv.open_run hlim later h hopen

/-- A run that uses up its rounds with the only task of its plan still queued, and the check for a
    continuation. -/
def unproductiveRun : List (Event ℚ) :=
  [.roundBudget 2 2 2 2 (some { tasks := [{ id := "t1", status := .queued }] }) "too many rounds",
    .check none 3 3 "no progress" true]

/-- Four such runs, with the default policy. -/
def unproductive : Chain ℚ :=
  runAll step (start defaultWorkflowBudgetPolicy "run-000001" 10 100 1)
    (unproductiveRun ++ unproductiveRun ++ unproductiveRun ++ unproductiveRun)

/-- There are two continuations, and never another one. -/
theorem unproductive_continuations_stop : unproductive.indices = [2, 1, 0] ∧
    noProgressYields unproductive.yields = 3 ∧ unproductive.circuitOpen = true ∧
    ∀ later, (runAll step unproductive later).indices = unproductive.indices :=
  ⟨by decide +kernel, by decide +kernel, by decide +kernel,
    (continuations_bounded "run-000001" 10 100 1 (by decide) (by decide) (by decide)
      (unproductiveRun ++ unproductiveRun ++ unproductiveRun ++ unproductiveRun)).2.2.2.2.2
      (by decide +kernel)⟩

end Chain

end Hopclaw
