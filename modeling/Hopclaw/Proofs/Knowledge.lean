import Hopclaw.Proofs.StatusDiscipline

/-! # What actors know about a run's identity

The status an actor remembers of a run may be overtaken at any time, but not the session the run
belongs to nor the event it was created for: no operation of a conforming actor changes them. So in
every interleaving what an actor knows of them is what is stored. -/

namespace Hopclaw

open Interleaving RunStore

/-- The two runs belong to the same session and event. -/
def Run.SameIdentity (r r' : Run) : Prop :=
  r.inputEventID = r'.inputEventID ∧ r.sessionID = r'.sessionID

/-- Every run the actor has seen is stored, and its identity is the one the actor saw. -/
def Hist.Knows (h : Hist) (w : World) : Prop :=
  ∀ id snap, h.seen id = some snap →
    ∃ run, w.runs.find? id = some run ∧ snap.inputEventID = run.inputEventID ∧
      snap.sessionID = run.sessionID

/-- From one state to the other, stored runs stay stored and keep their identity. -/
def World.KeepsIdentity (w w' : World) : Prop :=
  ∀ id run, w.runs.find? id = some run →
    ∃ run', w'.runs.find? id = some run' ∧ run'.SameIdentity run

variable {h : Hist} {w : World}

theorem World.KeepsIdentity.refl (w : World) : w.KeepsIdentity w :=
  fun _ run hrun => ⟨run, hrun, rfl, rfl⟩

theorem World.KeepsIdentity.trans {w₁ w₂ w₃ : World} (h12 : w₁.KeepsIdentity w₂)
    (h23 : w₂.KeepsIdentity w₃) : w₁.KeepsIdentity w₃ := by
  intro id run hrun
  obtain ⟨run₂, hrun₂, hev, hse⟩ := h12 id run hrun
  obtain ⟨run₃, hrun₃, hev', hse'⟩ := h23 id run₂ hrun₂
  exact ⟨run₃, hrun₃, hev'.trans hev, hse'.trans hse⟩

theorem Hist.Knows.kept {w' : World} (hk : h.Knows w) (hw : w.KeepsIdentity w') : h.Knows w' := by
  intro id snap hs
  obtain ⟨run, hrun, hev, hse⟩ := hk id snap hs
  obtain ⟨run', hrun', hev', hse'⟩ := hw id run hrun
  exact ⟨run', hrun', hev.trans hev'.symm, hse.trans hse'.symm⟩

theorem Hist.Knows.congr {h' : Hist} (hk : h.Knows w) (hs : h'.seen = h.seen) : h'.Knows w := by
  intro id snap hseen
  rw [hs] at hseen
  exact hk id snap hseen

variable {run : Run}

/-- The actor sees a run as it is stored, up to its status and other fields. -/
theorem Hist.Knows.see (hk : h.Knows w) {stored : Run} (hs : w.runs.find? run.id = some stored)
    (hi : run.SameIdentity stored) : (h.see run).Knows w := by
  intro id snap hseen
  by_cases hid : id = run.id
  · subst hid
    simp only [Hist.see, Function.update_self, Option.some.injEq] at hseen
    subst hseen
    exact ⟨stored, hs, hi.1, hi.2⟩
  · simp only [Hist.see, Function.update_of_ne hid] at hseen
    exact hk id snap hseen

theorem Hist.Knows.seeStored (hk : h.Knows w) (hs : w.runs.find? run.id = some run) :
    (h.see run).Knows w :=
  hk.see hs ⟨rfl, rfl⟩

theorem Hist.Knows.seeAll (hk : h.Knows w) {runs : List Run}
    (hs : ∀ run ∈ runs, w.runs.find? run.id = some run) : (runs.foldl Hist.see h).Knows w := by
  induction runs generalizing h with
  | nil => exact hk
  | cons run runs ih =>
    exact ih (hk.seeStored (hs run (by simp))) fun r hr => hs r (by simp [hr])

theorem Hist.Knows.seeResult (hk : h.Knows w) {r : Except Err Run}
    (hs : ∀ run, r = .ok run → w.runs.find? run.id = some run) : (h.seeResult r).Knows w := by
  cases r with
  | ok run => exact hk.seeStored (hs run rfl)
  | error e => exact hk

/-! ## Operations -/

/-- An operation that keeps to the protocol keeps identities. -/
theorem World.exec_keepsIdentity (env : Env) {q : Bool} {o : Op} (hg : (protocol q).guar h o)
    (hk : h.Knows w) : w.KeepsIdentity (w.exec env o).2 := by
  intro id old hold
  cases w.exec_recordChange env o id with
  | same hsame => exact ⟨old, hsame.trans hold, rfl, rfl⟩
  | updated run old' t ho hid hb ha =>
    subst ho hid
    obtain ⟨snap, hs, hev, hse, -⟩ : h.MayWrite run := hg
    obtain ⟨stored, hstored, hev', hse'⟩ := hk run.id snap hs
    obtain rfl := Option.some.inj (hold.symm.trans hstored)
    exact ⟨_, ha, hev.symm.trans hev', hse.symm.trans hse'⟩
  | claimed old' t₁ t₂ ho hb hq ha =>
    obtain rfl := Option.some.inj (hold.symm.trans hb)
    exact ⟨_, ha, rfl, rfl⟩
  | created _ _ _ _ _ hb _ => exact absurd (hold.symm.trans hb) (by simp)

variable {s : RunStore}

theorem RunStore.find?_of_get {id : String} (h : s.get id = .ok run) :
    s.find? run.id = some run := by
  cases hf : s.find? id with
  | none => exact absurd ((get_of_none hf).symm.trans h) (by simp)
  | some stored =>
    obtain rfl : stored = run := by simpa [get_of_some hf] using h
    rwa [find?_keyed hf]

theorem RunStore.find?_of_findByExternalEvent {event : String}
    (h : s.findByExternalEvent event = .ok run) :
    s.byEventID.lookup event = some run.id ∧ s.find? run.id = some run := by
  unfold findByExternalEvent at h
  split at h
  · exact absurd h (by simp)
  · rename_i id hid
    split at h
    · exact absurd h (by simp)
    · rename_i stored hf
      obtain rfl : stored = run := by simpa using h
      rw [find?_keyed hf]
      exact ⟨hid, hf⟩

variable {order : (l : List Run) → { l' : List Run // l'.Perm l }}

variable {filter : RunListFilter}

theorem RunStore.mem_selected_of_mem_list (h : run ∈ (s.list filter order).runs) :
    run ∈ s.selected filter := by
  have hsorted : run ∈ ((order (s.selected filter)).1.insertionSort
      fun a b => b.updatedAt ≤ a.updatedAt) := by
    simp only [list, listOf] at h
    split_ifs at h
    · exact List.mem_of_mem_take h
    · exact h
  exact (order (s.selected filter)).2.mem_iff.mp
    ((List.perm_insertionSort _ _).mem_iff.mp hsorted)

/-- `List` returns stored records. -/
theorem RunStore.find?_of_mem_list (h : run ∈ (s.list filter order).runs) :
    s.find? run.id = some run := by
  have hsel := mem_selected_of_mem_list h
  obtain ⟨e, he, rfl⟩ := List.mem_map.mp (List.mem_of_mem_filter hsel)
  have hlookup : s.find? e.1 = some e.2 := AList.mem_lookup_iff.mpr he
  rwa [find?_keyed hlookup]

/-- What an operation answers is stored afterwards. -/
theorem Hist.Knows.note (env : Env) (o : Op) (hk : h.Knows (w.exec env o).2) :
    (Hist.note o (w.exec env o).1 h).Knows (w.exec env o).2 := by
  cases o
  case runsFindByExternalEvent event =>
    refine Hist.Knows.congr (hk.seeResult
      fun run hr => ?_) rfl
    rw [(w.exec_writes env _).runs (by simp [Op.writes])]
    exact (find?_of_findByExternalEvent (w.of_faulty_ok env hr)).2
  case runsGet id =>
    refine hk.seeResult fun run hr => ?_
    rw [(w.exec_writes env _).runs (by simp [Op.writes])]
    exact find?_of_get (w.of_faulty_ok env hr)
  case runsCreate sessionID msg cfg =>
    refine Hist.Knows.congr (hk.seeResult
      fun run hr => ?_) rfl
    rcases w.exec_create env sessionID msg cfg with ⟨e, -, he, -⟩ | ⟨t, -, hok, hs⟩
    · exact absurd (hr.symm.trans he) (by simp)
    · obtain rfl : run = _ := by simpa using hr.symm.trans hok
      rw [hs, create_find?]
      exact if_pos rfl
  case runsList filter =>
    cases hr : (w.exec env (.runsList filter)).1 with
    | error e => exact hk
    | ok page =>
      obtain rfl : _ = page := Except.ok.inj (w.of_faulty_ok env hr)
      refine hk.seeAll fun run hmem => ?_
      rw [(w.exec_writes env _).runs (by simp [Op.writes])]
      exact find?_of_mem_list hmem
  case runsUpdate run =>
    rcases w.exec_update env run with ⟨e, -, he, -⟩ | ⟨old, t, hf, -, hok, hs⟩
    · rw [he]; exact hk
    · have hnew : (w.exec env (.runsUpdate run)).2.runs.find? run.id = some (run.stamped t) := by
        rw [hs, update_find? hf, if_pos rfl]
      rw [hok]
      exact hk.see hnew ⟨rfl, rfl⟩
  case runsClaim id =>
    rcases w.exec_claim env id with
      ⟨e, -, he, -⟩ | ⟨old, hf, -, hok, hs⟩ | ⟨old, t₁, t₂, hf, hq, hok, hs⟩
    · rw [he]; exact hk
    · have hold : (w.exec env (.runsClaim id)).2.runs.find? old.id = some old := by
        rw [hs, find?_keyed hf, hf]
      rw [hok]
      exact (hk.seeStored hold).congr rfl
    · have hnew : (w.exec env (.runsClaim id)).2.runs.find? (claimed t₁ t₂ old).id =
          some (claimed t₁ t₂ old) := by
        rw [hs, claimQueuedRun_find? hf hq]
        exact if_pos (find?_keyed hf)
      rw [hok]
      exact (hk.seeStored hnew).congr rfl
  case queueStart sessionID runID =>
    cases (w.exec env (.queueStart sessionID runID)).1 <;> exact hk.congr rfl
  case queueFinish site sessionID runID =>
    cases site <;> exact hk.congr rfl
  all_goals exact hk.congr rfl

/-! ## Schedules -/

variable {ι : Type} [DecidableEq ι] {env : Env} {a : AgentComponent} {Q : ι → Hist → Outcome → Prop}

/-- Every actor knows the identities of the runs it has seen. -/
def System.AllKnow (c : System ι) : Prop :=
  ∀ i, (c.threads i).hist.Knows c.state

theorem System.AllKnow.keepsIdentity {c : System ι} (hk : c.AllKnow)
    (hc : c.Conforms (protocol a.hasQueue) Q) (i : ι) :
    c.state.KeepsIdentity (c.step env a i).state := by
  cases hn : (c.threads i).next with
  | none =>
    rw [System.step_of_next_none hn]
    exact .refl _
  | some o =>
    rw [System.step_state hn]
    exact c.state.exec_keepsIdentity env (hc.guar hn) (hk i)

theorem System.AllKnow.step {c : System ι} (hk : c.AllKnow)
    (hc : c.Conforms (protocol a.hasQueue) Q) (i : ι) : (c.step env a i).AllKnow := by
  have hkept : c.state.KeepsIdentity (c.step env a i).state := hk.keepsIdentity hc i
  cases hn : (c.threads i).next with
  | none =>
    rw [System.step_of_next_none hn]
    exact hk
  | some o =>
    intro j
    by_cases hj : j = i
    · subst hj
      have hold := (hk j).kept hkept
      rw [System.step_state hn] at hold ⊢
      rw [System.step_hist hn]
      exact hold.note env o
    · rw [System.step_threads_ne hj]
      exact (hk j).kept hkept

omit [DecidableEq ι] in
theorem System.start_allKnow (a : AgentComponent) (actors : ι → Actor) (w : World) :
    (System.start a actors w).AllKnow := by
  intro i id snap hs
  have hseen : ((System.start a actors w).threads i).hist.seen = fun _ => none := by
    simp only [System.start, Actor.hist]
    split <;> rfl
  rw [hseen] at hs
  exact absurd hs (by simp)

theorem System.AllKnow.after (env : Env) {c : System ι} (hk : c.AllKnow)
    (hc : c.Conforms (protocol a.hasQueue) Q) (sched : List ι) :
    (c.after env a sched).Conforms (protocol a.hasQueue) Q ∧ (c.after env a sched).AllKnow ∧
      c.state.KeepsIdentity (c.after env a sched).state :=
  runAll_inv _ (I := fun c' : System ι => c'.Conforms (protocol a.hasQueue) Q ∧ c'.AllKnow ∧
      c.state.KeepsIdentity c'.state)
    (fun _ i h => ⟨h.1.step i, h.2.1.step h.1 i, h.2.2.trans (h.2.1.keepsIdentity h.1 i)⟩)
    ⟨hc, hk, .refl _⟩ sched

/-- In every interleaving, whatever fails, what the actors have seen of a run's session and event is
    right, and no stored run is lost or moved to another session or event by the steps that follow. -/
theorem stored_runs_keep_identity (env : Env) (a : AgentComponent) (actors : ι → Actor) (w : World)
    (sched more : List ι) :
    let c := (System.start a actors w).after env a sched
    c.AllKnow ∧ c.state.KeepsIdentity (c.after env a more).state := by
  obtain ⟨hconf, hknow, -⟩ := (System.start_allKnow a actors w).after env
    (System.start_conforms a actors w) sched
  exact ⟨hknow, (hknow.after env hconf more).2.2⟩

end Hopclaw
