import Hopclaw.Cron.Service

/-! # Executions of an occurrence

An occurrence is a job together with the next run it had. An execution begun from a list read
earlier executes an occurrence a second time exactly if the job has moved on since, or is being
executed by the other goroutine. -/

namespace Hopclaw.Cron.Service

open List Interleaving Option

variable {lib : TimeLib} {s : Service} {ev : Event}

/-- The stored job still has the next run it was read with, and no execution of it is in
    progress. -/
def Fresh (s : Service) (job : Job) : Prop :=
  (getJob job.id s.store).map Job.nextRunAt = some job.nextRunAt ∧
    ∀ e ∈ s.executions, e.job.id ≠ job.id

instance (s : Service) (job : Job) : Decidable (Fresh s job) :=
  inferInstanceAs (Decidable (_ ∧ _))

/-- If an execution begins, then of a job that is as it was read. -/
def BeginsFresh (s : Service) (ev : Event) : Prop :=
  ∀ job ∈ s.starting? ev, Fresh s job

instance (s : Service) (ev : Event) : Decidable (BeginsFresh s ev) :=
  inferInstanceAs (Decidable (∀ job ∈ s.starting? ev, Fresh s job))

/-- If an execution ends, then the arithmetic of its schedule stays within range. -/
def EndsInRange (lib : TimeLib) (s : Service) (ev : Event) : Prop :=
  ∀ e ∈ s.ending? ev, InRange lib e.job.schedule e.now e.job.createdAt

instance (s : Service) (ev : Event) : Decidable (EndsInRange lib s ev) :=
  inferInstanceAs (Decidable (∀ _ ∈ _, InRange ..))

/-! ## What a step does -/

/-- The missed jobs are due, and a round of the loop began in the past. -/
structure Timely (s : Service) : Prop where
  missed : ∀ job ∈ s.missed, job.nextRunAt ≠ 0 ∧ job.nextRunAt ≤ s.clock
  round : ∀ now jobs, s.round = some (now, jobs) → now ≤ s.clock

/-- An execution of the job begins. -/
structure Begins (job : Job) (s s' : Service) : Prop where
  store : s'.store = s.store
  executed : s'.executed = occurrence job :: s.executed
  executions : s'.executions.Perm (⟨job, s.clock⟩ :: s.executions)
  mem : job ∈ s.snapshots
  snapshots : ∀ x ∈ s'.snapshots, x ∈ s.snapshots
  timely : Timely s → Timely s' ∧ job.nextRunAt ≠ 0 ∧ job.nextRunAt ≤ s.clock

/-- An execution ends. -/
structure Ends (lib : TimeLib) (e : Execution) (s s' : Service) : Prop where
  store : ∃ status, s'.store = e.record lib status s.store
  executed : s'.executed = s.executed
  executions : s.executions.Perm (e :: s'.executions)
  snapshots : s'.snapshots = s.snapshots
  timely : Timely s → Timely s'

/-- The jobs and the executions are left alone; the jobs the loop reads for a new round are the
    stored ones. -/
structure Idles (s s' : Service) : Prop where
  store : s'.store = s.store
  executed : s'.executed = s.executed
  executions : s'.executions = s.executions
  snapshots : ∀ x ∈ s'.snapshots, x ∈ s.snapshots ∨ x ∈ s.store
  timely : Timely s → Timely s'

theorem Idles.refl (s : Service) : Idles s s :=
  ⟨rfl, rfl, rfl, fun _ => .inl, fun h => h⟩

theorem step_cases (lib : TimeLib) (s : Service) (ev : Event) :
    (∃ job, s.starting? ev = some job ∧ Begins job s (s.step lib ev)) ∨
    s.starting? ev = none ∧ ((∃ e, s.ending? ev = some e ∧ Ends lib e s (s.step lib ev)) ∨
      Idles s (s.step lib ev)) := by
  obtain ⟨store, clock, missed, catchUp, round, running, executed⟩ := s
  have hperm : ∀ e, (catchUp.toList ++ [e]).Perm (e :: (catchUp.toList ++ [])) := fun e => by
    rw [append_nil]
    exact perm_append_singleton e _
  cases ev with
  | wait delay =>
    have hle : clock ≤ clock + delay := by omega
    exact .inr ⟨rfl, .inr ⟨rfl, rfl, rfl, fun _ => .inl, fun h =>
      ⟨fun job hjob => (h.missed job hjob).imp_right fun hdue => hdue.trans hle,
        fun now jobs hround => (h.round now jobs hround).trans hle⟩⟩⟩
  | catchUpNext =>
    rcases catchUp with _ | e
    · rcases missed with _ | ⟨job, rest⟩
      · exact .inr ⟨rfl, .inr (.refl _)⟩
      · refine .inl ⟨job, rfl, rfl, rfl, .refl _, mem_cons_self,
          fun x => mem_cons_of_mem job, fun h => ⟨⟨fun x hx => ?_, h.round⟩, ?_⟩⟩
        · exact h.missed x (mem_cons_of_mem job hx)
        · exact h.missed job mem_cons_self
    · exact .inr ⟨rfl, .inr (.refl _)⟩
  | catchUpDone status =>
    rcases catchUp with _ | e
    · exact .inr ⟨rfl, .inr (.refl _)⟩
    · exact .inr ⟨rfl, .inl ⟨e, rfl, ⟨status, rfl⟩, rfl, .refl _, rfl, fun h => ⟨h.missed, h.round⟩⟩⟩
  | fire =>
    rcases round with _ | round
    · refine .inr ⟨rfl, .inr ⟨rfl, rfl, rfl, fun x hx => ?_, fun h => ⟨h.missed, ?_⟩⟩⟩
      · exact (mem_append.mp hx).imp_left (mem_append_left _)
      · rintro now jobs ⟨⟩
        exact le_rfl
    · exact .inr ⟨rfl, .inr (.refl _)⟩
  | fireNext =>
    rcases running with _ | e
    · rcases round with _ | ⟨now, _ | ⟨job, rest⟩⟩
      · exact .inr ⟨rfl, .inr (.refl _)⟩
      · exact .inr ⟨rfl, .inr ⟨rfl, rfl, rfl, fun _ => .inl, fun h => ⟨h.missed, nofun⟩⟩⟩
      · have hrest : ∀ x ∈ missed ++ rest, x ∈ missed ++ job :: rest := fun x hx =>
          mem_append.mpr ((mem_append.mp hx).imp_right (mem_cons_of_mem job))
        have hround : ∀ {c : ℤ}, now ≤ c → ∀ now' jobs,
            some (now, rest) = some (now', jobs) → now' ≤ c := by
          rintro c hle now' jobs ⟨⟩
          exact hle
        simp only [step, starting?]
        split_ifs with hdue
        · refine .inl ⟨job, rfl, rfl, rfl, hperm _, by simp [snapshots], hrest,
            fun h => ⟨⟨h.missed, hround (h.round now _ rfl)⟩, ?_⟩⟩
          simp only [due, Bool.and_eq_true, decide_eq_true_eq] at hdue
          exact ⟨hdue.1.1.2, hdue.1.2.trans (h.round now _ rfl)⟩
        · exact .inr ⟨rfl, .inr ⟨rfl, rfl, rfl, fun x hx => .inl (hrest x hx),
            fun h => ⟨h.missed, hround (h.round now _ rfl)⟩⟩⟩
    · exact .inr ⟨rfl, .inr (.refl _)⟩
  | fireDone status =>
    rcases running with _ | e
    · exact .inr ⟨rfl, .inr (.refl _)⟩
    · exact .inr ⟨rfl, .inl ⟨e, rfl, ⟨status, rfl⟩, rfl, hperm e, rfl,
        fun h => ⟨h.missed, h.round⟩⟩⟩

/-! ## Occurrences -/

/-- As long as every execution began with a job as it was read: the occurrences executed are all
    different and lie before the next run of their job, one that is being executed apart, and what
    was read of a job is what is stored or was executed. -/
structure Sound (s : Service) : Prop where
  timely : Timely s
  distinct : (s.store.map Job.id).Nodup
  once : s.executed.Nodup
  snapshot : ∀ job ∈ s.snapshots, ∃ j, getJob job.id s.store = some j ∧
    (j.nextRunAt = job.nextRunAt ∨ occurrence job ∈ s.executed)
  current : ∀ e ∈ s.executions, ∃ j, getJob e.job.id s.store = some j ∧
    j.nextRunAt = e.job.nextRunAt ∧ occurrence e.job ∈ s.executed ∧ e.job.nextRunAt ≠ 0 ∧
    e.job.nextRunAt ≤ e.now
  apart : (s.executions.map fun e => e.job.id).Nodup
  past : ∀ o ∈ s.executed, ∀ j, getJob o.1 s.store = some j →
    j.nextRunAt = 0 ∨ o.2 < j.nextRunAt ∨
      o.2 = j.nextRunAt ∧ ∃ e ∈ s.executions, e.job.id = o.1

namespace Sound

variable {s' : Service}

theorem begins {job : Job} (h : Sound s) (hb : Begins job s s') (hfresh : Fresh s job) :
    Sound s' := by
  obtain ⟨hstore, hexecuted, hexecutions, hjob, hsnapshots, htimely⟩ := hb
  obtain ⟨htimely, hnonzero, hdue⟩ := htimely h.timely
  obtain ⟨j, hget, hnext⟩ := map_eq_some_iff.mp hfresh.1
  have hnew : occurrence job ∉ s.executed := by
    intro hmem
    rcases h.past _ hmem j hget with hzero | hlt | ⟨-, e, he, hid⟩
    · exact hnonzero (hnext ▸ hzero)
    · exact absurd hnext (ne_of_gt hlt)
    · exact hfresh.2 e he hid
  refine ⟨htimely, hstore ▸ h.distinct, ?_, fun x hx => ?_, fun e he => ?_, ?_,
    fun o ho j' hj' => ?_⟩
  · rw [hexecuted]
    exact nodup_cons.mpr ⟨hnew, h.once⟩
  · obtain ⟨j', hj', hor⟩ := h.snapshot x (hsnapshots x hx)
    rw [hstore, hexecuted]
    exact ⟨j', hj', hor.imp_right (mem_cons_of_mem _)⟩
  · rw [hstore, hexecuted]
    rcases mem_cons.mp (hexecutions.mem_iff.mp he) with rfl | he
    · exact ⟨j, hget, hnext, mem_cons_self, hnonzero, hdue⟩
    · obtain ⟨j', hj', heq, hmem, hrest⟩ := h.current e he
      exact ⟨j', hj', heq, mem_cons_of_mem _ hmem, hrest⟩
  · rw [(hexecutions.map fun e : Execution => e.job.id).nodup_iff]
    refine nodup_cons.mpr ⟨fun hmem => ?_, h.apart⟩
    obtain ⟨e, he, hid⟩ := mem_map.mp hmem
    exact hfresh.2 e he hid
  · rw [hstore] at hj'
    rw [hexecuted] at ho
    rcases mem_cons.mp ho with rfl | ho
    · have hsame : j' = j := some.inj (hj'.symm.trans hget)
      subst hsame
      exact .inr (.inr ⟨hnext.symm, _, hexecutions.mem_iff.mpr mem_cons_self, rfl⟩)
    · rcases h.past o ho j' hj' with hzero | hlt | ⟨heq, e, he, hid⟩
      · exact .inl hzero
      · exact .inr (.inl hlt)
      · exact .inr (.inr ⟨heq, e, hexecutions.mem_iff.mpr (mem_cons_of_mem _ he), hid⟩)

/-- The next run moves on past the occurrence that was executed. -/
theorem ends {e : Execution} (h : Sound s) (he : Ends lib e s s')
    (hrange : InRange lib e.job.schedule e.now e.job.createdAt) : Sound s' := by
  obtain ⟨⟨status, hstore⟩, hexecuted, hexecutions, hsnapshots, htimely⟩ := he
  obtain ⟨j, hget, hnext, hmem, hnonzero, hdue⟩ :=
    h.current e (hexecutions.mem_iff.mpr mem_cons_self)
  have hget' : ∀ k, getJob k s'.store =
      if k = e.job.id then (getJob e.job.id s.store).map (recordOutcome lib e.job e.now status)
      else getJob k s.store := by
    intro k
    rw [hstore]
    exact Keyed.get_update fun _ hid => recordOutcome_id.trans hid
  have hapart := (hexecutions.map fun e : Execution => e.job.id).nodup_iff.mp h.apart
  rw [map_cons, nodup_cons] at hapart
  have hother : ∀ e' ∈ s'.executions, e'.job.id ≠ e.job.id :=
    fun e' he' hid => hapart.1 (mem_map.mpr ⟨e', he', hid⟩)
  refine ⟨htimely h.timely, ?_, hexecuted ▸ h.once, fun x hx => ?_, fun e' he' => ?_, hapart.2,
    fun o ho j' hj' => ?_⟩
  · rw [hstore]
    exact (Keyed.map_key_update fun _ hid => recordOutcome_id.trans hid).symm ▸ h.distinct
  · -- a list that was read before the write has the occurrence that has just been executed
    rw [hsnapshots] at hx
    rw [hget', hexecuted]
    obtain ⟨j', hj', hor⟩ := h.snapshot x hx
    split_ifs with hid
    · refine ⟨_, by rw [hget]; rfl, .inr ?_⟩
      rw [hid, hget, some.injEq] at hj'
      subst hj'
      rcases hor with heq | hdone
      · rwa [occurrence, ← heq, hnext, hid]
      · exact hdone
    · exact ⟨j', hj', hor⟩
  · obtain ⟨j', hj', hrest⟩ := h.current e' (hexecutions.mem_iff.mpr (mem_cons_of_mem _ he'))
    refine ⟨j', ?_, hexecuted ▸ hrest⟩
    rw [hget', if_neg (hother e' he')]
    exact hj'
  · rw [hexecuted] at ho
    rw [hget'] at hj'
    split_ifs at hj' with hid
    · rw [hget, map_some, some.injEq] at hj'
      subst hj'
      have hle : o.2 ≤ e.job.nextRunAt := by
        rcases h.past o ho j (hid ▸ hget) with hzero | hlt | ⟨heq, -⟩
        · exact absurd (hnext ▸ hzero) hnonzero
        · exact hnext ▸ hlt.le
        · exact hnext ▸ heq.le
      rcases recordOutcome_later status j hrange with hzero | hlater
      · exact .inl hzero
      · exact .inr (.inl ((hle.trans hdue).trans_lt hlater))
    · rcases h.past o ho j' hj' with hzero | hlt | ⟨heq, e', he', hid'⟩
      · exact .inl hzero
      · exact .inr (.inl hlt)
      · rcases mem_cons.mp (hexecutions.mem_iff.mp he') with rfl | he'
        · exact absurd hid'.symm hid
        · exact .inr (.inr ⟨heq, e', he', hid'⟩)

theorem idles (h : Sound s) (hi : Idles s s') : Sound s' := by
  obtain ⟨hstore, hexecuted, hexecutions, hsnapshots, htimely⟩ := hi
  refine ⟨htimely h.timely, hstore ▸ h.distinct, hexecuted ▸ h.once, fun x hx => ?_, ?_, ?_, ?_⟩
  · rw [hstore, hexecuted]
    rcases hsnapshots x hx with hx | hx
    · exact h.snapshot x hx
    · exact ⟨x, Keyed.get_of_mem h.distinct hx, .inl rfl⟩
  · rw [hstore, hexecuted, hexecutions]
    exact h.current
  · rw [hexecutions]
    exact h.apart
  · rw [hstore, hexecuted, hexecutions]
    exact h.past

theorem step (h : Sound s) (hrange : EndsInRange lib s ev) (hfresh : BeginsFresh s ev) :
    Sound (s.step lib ev) := by
  rcases step_cases lib s ev with ⟨job, hstart, hb⟩ | ⟨-, ⟨e, hend, he⟩ | hi⟩
  · exact h.begins hb (hfresh job hstart)
  · exact h.ends he (hrange e hend)
  · exact h.idles hi

/-- Begun from anything else, an execution repeats one. -/
theorem fresh_of_once (h : Sound s) (honce : (s.step lib ev).executed.Nodup) :
    BeginsFresh s ev := by
  intro job hstart
  obtain ⟨job', hstart', hb⟩ := (step_cases lib s ev).resolve_right fun h =>
    absurd (hstart.symm.trans h.1) nofun
  obtain rfl := some.inj (hstart.symm.trans hstart')
  obtain ⟨-, hexecuted, -, hjob, -, -⟩ := hb
  rw [hexecuted, nodup_cons] at honce
  obtain ⟨j, hget, hor⟩ := h.snapshot job hjob
  have hsame : j.nextRunAt = job.nextRunAt := hor.resolve_right honce.1
  refine ⟨by rw [hget]; exact congrArg some hsame, fun e he hid => honce.1 ?_⟩
  obtain ⟨j', hget', hnext, hmem, -⟩ := h.current e he
  rw [hid, hget, some.injEq] at hget'
  rwa [occurrence, ← hsame, hget', hnext, ← hid]

theorem of_start {jobs : List Job} (hids : (jobs.map Job.id).Nodup) (now : ℤ) (delay : ℕ) :
    Sound (start lib jobs now delay) := by
  have hdistinct : ((seedNextRunTimes lib now jobs).map Job.id).Nodup :=
    (map_id_seedNextRunTimes jobs).symm ▸ hids
  have hmissed : ∀ job ∈ missedJobs (now + delay) (seedNextRunTimes lib now jobs),
      job ∈ seedNextRunTimes lib now jobs ∧ job.nextRunAt ≠ 0 ∧ job.nextRunAt ≤ now + delay := by
    intro job hjob
    obtain ⟨hmem, hdue⟩ := mem_filter.mp (mem_of_mem_take hjob)
    simp only [Bool.and_eq_true, decide_eq_true_eq] at hdue
    exact ⟨hmem, hdue.1.2, hdue.2.le⟩
  refine ⟨⟨fun job hjob => (hmissed job hjob).2, by simp [start]⟩, hdistinct, nodup_nil,
    fun job hjob => ?_, by simp [start, executions], by simp [start, executions], by simp [start]⟩
  have hjob' : job ∈ missedJobs (now + delay) (seedNextRunTimes lib now jobs) := by
    simpa [start, snapshots] using hjob
  exact ⟨job, Keyed.get_of_mem hdistinct (hmissed job hjob').1, .inl rfl⟩

end Sound

/-! ## Whole runs -/

/-- From a start on jobs with distinct ids, as long as the arithmetic of schedules stays within
    range, no occurrence is executed twice exactly if every execution begins with a job that still
    has the next run it was read with and is not being executed. -/
theorem occurrences_once_iff {jobs : List Job} (hids : (jobs.map Job.id).Nodup) (now : ℤ)
    (delay : ℕ) {run : List Event}
    (hrange : Meets (step lib) (EndsInRange lib) (start lib jobs now delay) run) :
    (runAll (step lib) (start lib jobs now delay) run).executed.Nodup ↔
      Meets (step lib) BeginsFresh (start lib jobs now delay) run := by
  refine Meets.iff_safe
    (fun s ev h hQ hP => h.step hQ hP) (fun s h => h.once)
    (fun s ev h _ honce => h.fresh_of_once honce) (fun s ev honce => ?_) hrange
    (Sound.of_start hids now delay)
  rcases step_cases lib s ev with ⟨job, -, hb⟩ | ⟨-, ⟨e, -, he⟩ | hi⟩
  · rw [hb.executed] at honce
    exact (nodup_cons.mp honce).2
  · rwa [he.executed] at honce
  · rwa [hi.executed] at honce

/-- A job that was to run an hour after it was created. -/
def missedJob : Job where
  id := "report"
  schedule := { kind := .kindEvery, everyText := "30m" }
  createdAt := second
  nextRunAt := 3601 * second

/-- One job after the other is executed, by one goroutine at a time. -/
theorem occurrences_in_turn :
    (runAll (step intervals) (start intervals [missedJob] (7300 * second) 0)
      [.catchUpNext, .catchUpDone .ok, .wait 1800000000000, .fire, .fireNext]).executed.Nodup :=
  (occurrences_once_iff (by decide) _ _ (by decide +kernel)).mpr (by decide +kernel)

/-- The loop fires the missed job while the first goroutine executes it. -/
theorem missed_job_runs_twice :
    (runAll (step intervals) (start intervals [missedJob] (7300 * second) 0)
      [.catchUpNext, .wait 1000000, .fire, .fireNext]).executed =
      [("report", 3601 * second), ("report", 3601 * second)] := by
  decide +kernel

end Hopclaw.Cron.Service
