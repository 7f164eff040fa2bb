import Hopclaw.Interleaving.Trace
import Hopclaw.Store.RunAppends

/-! # What a reload finds after overlapping calls

The last line of a run's file is what another store takes for the run. Lines are written outside of
the critical sections, so their order need not be the order of the updates, and a snapshot may
replace a file to which another call has just written. In runs where every line is written in its
turn and every snapshot is still the last line when it takes the place of the file, a reload finds
exactly the records in memory. -/

namespace Hopclaw.Store.Appending

open Option List Inodes Interleaving JSONLRunStore Cloning

variable {X : Type} {c : Cloning X} {s : Appending X}

/-! ## Calls that overlap -/

/-- A line is written to the file that has the name, and after the lines of all calls for the run
    that took their records earlier. A snapshot takes the place of the file only while it still is
    the last line. -/
def InOrder (s : Appending X) : Move X → Prop
  | .begin _ => True
  | .advance i =>
    match s.calls[i]? with
    | some ⟨record, _, .writing file⟩ => s.dir.names.lookup (.log record.run.id) = some file ∧
        ∀ k ∈ s.calls.take i, k.record.run.id = record.run.id → k.stage.unwritten = false
    | some ⟨record, _, .replacing⟩ => ∃ lines, s.dir.read (.tmp record.run.id) = some lines ∧
        lines.getLast? = lastLine s.dir record.run.id
    | _ => True

/-! ## One run -/

/-- The records of calls that are not yet written, oldest first. -/
def waiting (calls : List (AppendCall X)) : List (RunRecord X) :=
  (calls.filter fun k => k.stage.unwritten).map AppendCall.record

theorem waiting_append (l₁ l₂ : List (AppendCall X)) :
    waiting (l₁ ++ l₂) = waiting l₁ ++ waiting l₂ := by
  simp [waiting]

theorem waiting_singleton (k : AppendCall X) :
    waiting [k] = if k.stage.unwritten then [k.record] else [] := by
  cases hk : k.stage.unwritten <;> simp [waiting, hk]

/-- The last record that waits, else the last line of the file. -/
def newest (calls : List (AppendCall X)) (file : Option (List (RunRecord X))) :
    Option (RunRecord X) :=
  (waiting calls).getLast?.or (file.getD []).getLast?

/-- What is known of a run, by its record in memory, the lines of its file and the calls for it. -/
inductive At (c : Cloning X) (next : ℕ) (id : String) :
    Option (RunRecord X) → Option (List (RunRecord X)) → List (AppendCall X) → Prop
  | unknown : At c next id none none []
  /-- The record is in memory, or the only call for the run creates it. -/
  | known (r : RunRecord X) {mem : Option (RunRecord X)} {file : Option (List (RunRecord X))}
      {calls : List (AppendCall X)} (hstable : cloneAgentRun c r = some r)
      (hnumbered : ∃ n, 0 < n ∧ n ≤ next ∧ id = runID n) (hnewest : newest calls file = some r)
      (hcalls : (mem = some r ∧ ∀ k ∈ calls, k.creating = false ∧ k.stage ≠ .entering) ∨
        mem = none ∧ ∃ k, calls = [k] ∧ k.record = r ∧ k.creating = true) :
      At c next id mem file calls

/-- A call goes on, or is over. -/
structure Goes (call : AppendCall X) (new : Option (AppendCall X)) : Prop where
  same : ∀ k ∈ new, k.record = call.record ∧ k.creating = call.creating ∧
    (k.stage = .entering → call.creating = true)
  ends : new = none → call.creating = false

variable {calls : List (AppendCall X)}

namespace At

variable {next : ℕ} {id : String} {mem : Option (RunRecord X)}
  {file file' : Option (List (RunRecord X))} {pre post : List (AppendCall X)} {call : AppendCall X}
  {new : Option (AppendCall X)}

theorem mono (h : At c next id mem file calls) {next' : ℕ} (hle : next ≤ next') :
    At c next' id mem file calls := by
  cases h with
  | unknown => exact .unknown
  | known r hstable hnumbered hnewest hcalls =>
    obtain ⟨n, hpos, hn, hid⟩ := hnumbered
    exact .known r hstable ⟨n, hpos, hn.trans hle, hid⟩ hnewest hcalls

/-- Nothing is known of a run whose number was not drawn. -/
theorem of_fresh (h : At c next (runID (next + 1)) mem file calls) :
    mem = none ∧ file = none ∧ calls = [] := by
  cases h with
  | unknown => exact ⟨rfl, rfl, rfl⟩
  | known r hstable hnumbered hnewest hcalls =>
    obtain ⟨n, -, hn, hid⟩ := hnumbered
    have := runID_injective hid
    omega

theorem eq_singleton {k : AppendCall X} (h : pre ++ call :: post = [k]) :
    pre = [] ∧ call = k ∧ post = [] := by
  simpa [append_eq_singleton_iff] using h

section

variable (h : At c next id mem file (pre ++ call :: post))
include h

/-- A step of a call that leaves the newest record alone. -/
theorem advance (hgoes : Goes call new)
    (hnewest : newest (pre ++ new.toList ++ post) file' = newest (pre ++ call :: post) file) :
    At c next id mem file' (pre ++ new.toList ++ post) := by
  generalize hcs : pre ++ call :: post = calls at h
  cases h with
  | unknown => simp at hcs
  | known r hstable hnumbered hr hcalls =>
    subst hcs
    refine .known r hstable hnumbered (hnewest.trans hr) (hcalls.imp ?_ ?_)
    · rintro ⟨hmem, hall⟩
      have hcall := hall call (by simp)
      refine ⟨hmem, fun k hk => ?_⟩
      simp only [mem_append, mem_toList] at hk
      rcases hk with (hk | hk) | hk
      · exact hall k (by simp [hk])
      · obtain ⟨-, hsame, hentering⟩ := hgoes.same k hk
        exact ⟨hsame.trans hcall.1, fun hstage => by simpa [hcall.1] using hentering hstage⟩
      · exact hall k (by simp [hk])
    · rintro ⟨hmem, k, hone, hrecord, hcreating⟩
      obtain ⟨rfl, rfl, rfl⟩ := eq_singleton hone
      cases new with
      | none => exact absurd hcreating (by simp [hgoes.ends rfl])
      | some k' =>
        obtain ⟨hrecord', hsame, -⟩ := hgoes.same k' rfl
        exact ⟨hmem, k', rfl, hrecord'.trans hrecord, hsame.trans hcreating⟩

/-- A step of a call that leaves the last line alone. -/
theorem quiet (hgoes : Goes call new) (hwaiting : waiting new.toList = waiting [call])
    (hlast : (file'.getD []).getLast? = (file.getD []).getLast?) :
    At c next id mem file' (pre ++ new.toList ++ post) := by
  refine h.advance hgoes ?_
  rw [newest, newest, hlast, waiting_append, waiting_append, hwaiting, ← waiting_append,
    ← waiting_append, append_assoc, singleton_append]

/-- A line that is written in its turn. -/
theorem write {handle : ℕ}
    (hstage : call.stage = .writing handle) (hturn : ∀ k ∈ pre, k.stage.unwritten = false) :
    At c next id mem (some (file.getD [] ++ [call.record]))
      (pre ++ (some { call with stage := .checking handle }).toList ++ post) := by
  refine h.advance ⟨by simp, by simp⟩ ?_
  -- nothing waits before this line, so it was the first of those that wait
  have hfirst : waiting pre = [] := by simpa [waiting] using hturn
  have hcall : waiting (call :: post) = call.record :: waiting post := by
    simp [waiting, hstage, AppendStage.unwritten]
  rw [newest, newest, waiting_append, waiting_append, waiting_append, hfirst, hcall,
    toList_some, waiting_singleton, if_neg (by simp [AppendStage.unwritten])]
  cases (waiting post).getLast? <;> simp [List.getLast?_cons]

/-- `Create` enters its run. -/
theorem enter (hstage : call.stage = .entering) : (∃ n, 0 < n ∧ n ≤ next ∧ id = runID n) ∧
      At c next id (some call.record) file (pre ++ post) := by
  generalize hcs : pre ++ call :: post = calls at h
  cases h with
  | unknown => simp at hcs
  | known r hstable hnumbered hr hcalls =>
    rcases hcalls with ⟨-, hall⟩ | ⟨-, k, rfl, rfl, -⟩
    · exact absurd hstage (hall call (by simp [← hcs])).2
    · obtain ⟨rfl, rfl, rfl⟩ := eq_singleton hcs
      rw [newest, waiting_singleton, hstage] at hr
      exact ⟨hnumbered, .known _ hstable hnumbered hr (.inl ⟨rfl, by simp⟩)⟩

end

/-- Between calls the last line of the file is the record. -/
theorem idle_iff : At c next id mem file [] ↔ (mem = none ∧ file = none) ∨
    ∃ r lines, mem = some r ∧ file = some lines ∧ cloneAgentRun c r = some r ∧
      (∃ n, 0 < n ∧ n ≤ next ∧ id = runID n) ∧ lines ≠ [] ∧ lines.getLast? = some r := by
  constructor
  · rintro (_ | ⟨r, hstable, hnumbered, hlast, ⟨rfl, -⟩ | ⟨-, k, hk, -⟩⟩)
    · exact .inl ⟨rfl, rfl⟩
    · cases file with
      | none => cases hlast
      | some lines =>
        refine .inr ⟨r, lines, rfl, rfl, hstable, hnumbered, ?_, hlast⟩
        rintro rfl
        cases hlast
    · cases hk
  · rintro (⟨rfl, rfl⟩ | ⟨r, lines, rfl, rfl, hstable, hnumbered, -, hlast⟩)
    · exact .unknown
    · exact .known r hstable hnumbered hlast (.inl ⟨rfl, by simp⟩)

end At

/-! ## All runs -/

/-- The calls for a run. -/
def callsFor (s : Appending X) (id : String) : List (AppendCall X) :=
  s.calls.filter fun k => k.record.run.id = id

def Consistent (c : Cloning X) (s : Appending X) : Prop :=
  ∀ id, At c s.table.nextID id (s.table.find? id) (s.dir.read (.log id)) (s.callsFor id)

variable {call : AppendCall X} {new : Option (AppendCall X)} {dir : Dir FileName (RunRecord X)}

namespace Consistent

/-- Between calls the files and the maps agree, and the other way round. -/
theorem iff_logged (hcalls : s.calls = []) : Consistent c s ↔ Logged c s.store := by
  have hlookup : ∀ id, s.store.files.lookup id = s.dir.read (.log id) := logFiles_lookup
  have hidle : ∀ id, s.callsFor id = [] := by simp [callsFor, hcalls]
  simp only [Consistent, hidle, At.idle_iff]
  constructor
  · intro h
    refine ⟨fun id r hr => ?_, fun id r hr => ?_, fun id lines hlines => ?_, fun id => ?_⟩
    all_goals rcases h id with ⟨hnone, hfile⟩ | ⟨r', lines', hfind, hfile, hstable, hn, hne, hlast⟩
    all_goals simp_all [store]
  · intro h id
    have hlatest : (s.dir.read (.log id)).bind List.getLast? = s.table.find? id := by
      rw [← hlookup]
      exact h.latest id
    cases hread : s.dir.read (.log id) with
    | none =>
      rw [hread] at hlatest
      exact .inl ⟨hlatest.symm, rfl⟩
    | some lines =>
      have hne := h.nonempty id lines (by rw [hlookup, hread])
      obtain ⟨r, hr⟩ := isSome_iff_exists.mp (List.getLast?_isSome.mpr hne)
      rw [hread, bind_some, hr] at hlatest
      exact .inr ⟨r, lines, hlatest.symm, rfl, h.stable id r hlatest.symm,
        h.numbered id r hlatest.symm, hne, hr⟩

theorem stable (h : Consistent c s) : Stable c s.table := by
  intro id r hr
  have hid := h id
  rw [hr] at hid
  cases hid with
  | known r' hstable _ _ hcalls =>
    rcases hcalls with ⟨heq, -⟩ | ⟨heq, -⟩ <;> cases heq
    exact hstable

/-! ### A call begins -/

theorem callsFor_concat (k : AppendCall X) (t : RunTable X) (id : String) :
    callsFor { s with table := t, calls := s.calls ++ [k] } id =
      if k.record.run.id = id then s.callsFor id ++ [k] else s.callsFor id := by
  simp only [callsFor, filter_append]
  split_ifs with h <;> simp [h]

theorem draw (h : Consistent c s) (now : Time) (sessionID : String) (msg : IncomingMessage)
    (cfg : AgentConfig) : Consistent c (step c s (.begin (.create now sessionID msg cfg))) := by
  intro id
  change At c (s.table.nextID + 1) id (s.table.find? id) (s.dir.read (.log id))
    (callsFor { s with table := s.table.draw, calls := s.calls ++ [_] } id)
  rw [callsFor_concat]
  split_ifs with hid
  · subst hid
    obtain ⟨hnone, hread, hcalls⟩ := (h (runID (s.table.nextID + 1))).of_fresh
    change At c _ (runID (s.table.nextID + 1)) (s.table.find? (runID (s.table.nextID + 1)))
      (s.dir.read (.log (runID (s.table.nextID + 1)))) (s.callsFor (runID (s.table.nextID + 1)) ++ _)
    rw [hnone, hcalls]
    exact .known _ (newRun_stable now sessionID msg cfg) ⟨_, Nat.succ_pos _, le_rfl, rfl⟩ rfl
      (.inr ⟨rfl, _, rfl, rfl, rfl⟩)
  · exact (h id).mono (Nat.le_succ _)

theorem leave (h : Consistent c s) {op : RunOp X} {r : RunRecord X} {t : RunTable X}
    (hsome : section? c s.table op = some (r, t)) : Consistent c (s.left (some (r, t))) := by
  obtain ⟨hr, hnext, ⟨old, hold⟩, hfind⟩ := section?_eq_some h.stable hsome
  intro id
  change At c t.nextID id (t.find? id) (s.dir.read (.log id))
    (callsFor { s with table := t, calls := s.calls ++ [_] } id)
  rw [callsFor_concat, hfind, hnext]
  by_cases hid : r.run.id = id
  · -- the new record is the last one that waits
    subst hid
    rw [if_pos rfl, if_pos rfl]
    have hat := h r.run.id
    rw [hold] at hat
    generalize s.dir.read (.log r.run.id) = file, s.callsFor r.run.id = calls at hat ⊢
    cases hat with
    | known _ _ hnumbered _ hcalls =>
      obtain ⟨-, hall⟩ := hcalls.resolve_right (by simp)
      refine .known r hr hnumbered ?_ (.inl ⟨rfl, ?_⟩)
      · rw [newest, waiting_append]
        change (waiting calls ++ [r]).getLast?.or _ = _
        rw [List.getLast?_concat, some_or]
      · rw [forall_mem_append, forall_mem_singleton]
        exact ⟨hall, rfl, by simp⟩
  · rw [if_neg hid, if_neg (Ne.symm hid)]
    exact h id

/-! ### A call goes on -/

/-- A step of one call concerns its run only. -/
theorem update (h : Consistent c s) {l₁ l₂ : List (AppendCall X)}
    (hcalls : s.calls = l₁ ++ call :: l₂) {t : RunTable X} {failed : Bool}
    (hnew : ∀ k ∈ new, k.record = call.record) (hnext : t.nextID = s.table.nextID)
    (hothers : ∀ id, id ≠ call.record.run.id →
      t.find? id = s.table.find? id ∧ dir.read (.log id) = s.dir.read (.log id))
    (hmine : ∀ pre post, (∀ k ∈ pre, k ∈ l₁ ∧ k.record.run.id = call.record.run.id) →
      At c s.table.nextID call.record.run.id (s.table.find? call.record.run.id)
        (s.dir.read (.log call.record.run.id)) (pre ++ call :: post) →
      At c s.table.nextID call.record.run.id (t.find? call.record.run.id)
        (dir.read (.log call.record.run.id)) (pre ++ new.toList ++ post)) :
    Consistent c ⟨t, dir, l₁ ++ new.toList ++ l₂, failed⟩ := by
  intro id
  have hid := h id
  simp only [callsFor, hcalls, filter_append] at hid ⊢
  rw [hnext]
  by_cases heq : id = call.record.run.id
  · subst heq
    have hkept : new.toList.filter (fun k => k.record.run.id = call.record.run.id) = new.toList :=
      filter_eq_self.mpr fun k hk => by simp [hnew k (mem_toList.mp hk)]
    rw [hkept]
    exact hmine _ _ (fun k hk => by simpa using mem_filter.mp hk) (by simpa using hid)
  · have hgone : new.toList.filter (fun k => k.record.run.id = id) = [] :=
      filter_eq_nil_iff.mpr fun k hk => by
        simpa [hnew k (mem_toList.mp hk)] using Ne.symm heq
    rw [hgone, (hothers id heq).1, (hothers id heq).2]
    simpa [Ne.symm heq] using hid

/-- A step that leaves every last line alone. -/
theorem quiet (h : Consistent c s) {l₁ l₂ : List (AppendCall X)}
    (hcalls : s.calls = l₁ ++ call :: l₂) {failed : Bool} (hgoes : Goes call new)
    (hwaiting : waiting new.toList = waiting [call])
    (hothers : ∀ id, id ≠ call.record.run.id → dir.read (.log id) = s.dir.read (.log id))
    (hlast : lastLine dir call.record.run.id = lastLine s.dir call.record.run.id) :
    Consistent c ⟨s.table, dir, l₁ ++ new.toList ++ l₂, failed⟩ :=
  h.update hcalls (fun k hk => (hgoes.same k hk).1) rfl (fun id hid => ⟨rfl, hothers id hid⟩)
    fun _ _ _ hat => hat.quiet hgoes hwaiting hlast

theorem returned_spec (call : AppendCall X) (hstage : call.stage.unwritten = false) :
    Goes call (returned call) ∧ waiting (returned call).toList = waiting [call] := by
  rw [waiting_singleton, hstage, returned]
  cases hc : call.creating
  · exact ⟨⟨by simp, by simp [hc]⟩, rfl⟩
  · exact ⟨⟨by simp [hc], by simp⟩, rfl⟩

theorem step (h : Consistent c s) (move : Move X) (hmove : InOrder s move) :
    Consistent c (step c s move) := by
  cases move with
  | begin op =>
    by_cases hop : ∃ now sessionID msg cfg, op = .create now sessionID msg cfg
    · obtain ⟨now, sessionID, msg, cfg, rfl⟩ := hop
      exact h.draw now sessionID msg cfg
    · have hbegin : Appending.step c s (.begin op) = s.left (section? c s.table op) := by
        cases op with
        | create now sessionID msg cfg => exact absurd ⟨_, _, _, _, rfl⟩ hop
        | _ => rfl
      rw [hbegin]
      cases hsome : section? c s.table op with
      | none => exact h
      | some result => exact h.leave hsome
  | advance i =>
    simp only [Appending.step]
    cases hi : s.calls[i]? with
    | none => exact h
    | some call =>
      obtain ⟨hlt, hget⟩ := List.getElem?_eq_some_iff.mp hi
      have hcalls : s.calls = s.calls.take i ++ call :: s.calls.drop (i + 1) := by
        rw [← hget, getElem_cons_drop, take_append_drop]
      simp only [InOrder, hi] at hmove
      obtain ⟨record, creating, stage⟩ := call
      simp only [advance]
      cases stage with
      | opening =>
        refine h.quiet hcalls ⟨by simp, by simp⟩ rfl (fun id hid => ?_)
          (lastLine_openFile _ _)
        rw [Dir.read_openFile, if_neg (by simpa using hid)]
      | writing file =>
        refine h.update hcalls (by simp) rfl (fun id hid => ⟨rfl, ?_⟩) fun pre post hpre hat => ?_
        · rw [Dir.read_append hmove.1, if_neg (by simpa using hid)]
        · rw [Dir.read_append hmove.1, if_pos rfl]
          exact hat.write rfl fun k hk => hmove.2 k (hpre k hk).1 (hpre k hk).2
      | checking file =>
        simp only
        split_ifs
        · obtain ⟨hgoes, hwaiting⟩ := returned_spec ⟨record, creating, .checking file⟩ rfl
          exact h.quiet hcalls hgoes hwaiting (fun _ _ => rfl) rfl
        · exact h.quiet hcalls ⟨by simp, by simp⟩ rfl (fun _ _ => rfl) rfl
      | snapshotting =>
        refine h.quiet hcalls ⟨by simp, by simp⟩ rfl (fun id _ => read_log_writeFile _ _ _) ?_
        rw [lastLine, read_log_writeFile, lastLine]
      | replacing =>
        obtain ⟨lines, hlines, hlast⟩ := hmove
        obtain ⟨dir, hdir⟩ := Dir.rename_isSome (.log record.run.id) hlines
        simp only [hdir]
        obtain ⟨hgoes, hwaiting⟩ := returned_spec ⟨record, creating, .replacing⟩ rfl
        refine h.quiet hcalls hgoes hwaiting (fun id hid => ?_) ?_
        · rw [read_log_rename hdir, if_neg hid]
        · rw [lastLine, read_log_rename hdir, if_pos rfl, hlines, ← hlast, getD_some]
      | entering =>
        have hfind := restore_find? s.table record
        have hnext : (s.table.restore record).nextID = s.table.nextID := by
          have hmem : ⟨record, creating, .entering⟩ ∈ s.callsFor record.run.id :=
            mem_filter.mpr ⟨mem_of_getElem? hi, by simp⟩
          obtain ⟨pre, post, hsplit⟩ := append_of_mem hmem
          obtain ⟨⟨n, -, hle, hn⟩, -⟩ := (hsplit ▸ h record.run.id).enter rfl
          change max _ _ = _
          rw [hn, parseSequence_runID]
          exact max_eq_left hle
        refine h.update hcalls (by simp) hnext (fun id hid => ⟨?_, rfl⟩) fun pre post _ hat => ?_
        · rw [hfind, if_neg hid]
        · rw [hfind]
          simpa using (hat.enter rfl).2

end Consistent

/-! ## Reloading -/

/-- Whatever calls overlap, if the lines are written in order then a store opened on the directory
    once all calls are over has, for every run, exactly the record in memory. -/
theorem reload_yields_memory (c : Cloning X) {s : Appending X} (hcalls : s.calls = [])
    (hlogged : Logged c s.store) {moves : List (Move X)}
    (hmoves : Meets (step c) InOrder s moves) (hdone : (runAll (step c) s moves).calls = [])
    (order : LoadOrder X) :
    ∃ s', load c 0 order (runAll (step c) s moves).logFiles = some s' ∧
      ∀ id, s'.table.find? id = (runAll (step c) s moves).table.find? id := by
  have hconsistent := Meets.inv (fun _ move h hmove => h.step move hmove)
    ((Consistent.iff_logged hcalls).mpr hlogged) hmoves
  exact ((Consistent.iff_logged hdone).mp hconsistent).load_all order

/-- A run is created, and then updated by two calls that overlap. -/
def overlapping (rest : List (Move Unit)) : List (Move Unit) :=
  let updated (st : RunStatus) : RunRecord Unit :=
    ⟨{ id := "run-000001", sessionID := "sess", status := st }, ()⟩
  [.begin (.create 1 "sess" { sessionKey := "chat" } {}), .advance 0, .advance 0, .advance 0,
    .advance 0, .begin (.update 2 (updated .running)), .begin (.update 3 (updated .completed))] ++
    rest

/-- The second update overtakes the first one on its way to the file. -/
def swapped : List (Move Unit) :=
  overlapping [.advance 1, .advance 1, .advance 1, .advance 0, .advance 0, .advance 0]

/-- Both files are open before the first line is written, and the lines are written in order. -/
def inTurn : List (Move Unit) :=
  overlapping [.advance 1, .advance 0, .advance 0, .advance 1, .advance 0, .advance 0]

/-- All appends succeed, the run is completed in memory, and it is running after a reload. -/
theorem swapped_appends_lose_update :
    (runAll (step plain) {} swapped).calls.length = 0 ∧
    (runAll (step plain) {} swapped).failed = false ∧
    ((runAll (step plain) {} swapped).table.find? "run-000001").map
      (fun r => r.run.status) = some .completed ∧
    ((load plain 0 (fun l => ⟨l, .refl l⟩)
      (runAll (step plain) {} swapped).logFiles).bind
        fun s' => s'.table.find? "run-000001").map (fun r => r.run.status) = some .running := by
  decide +kernel

theorem appends_in_turn_reload : ∃ s',
    load plain 0 (fun l => ⟨l, .refl l⟩)
      (runAll (step plain) {} inTurn).logFiles = some s' ∧
    ∀ id, s'.table.find? id = (runAll (step plain) {} inTurn).table.find? id := by
  refine reload_yields_memory plain rfl Logged.empty ?_ rfl _
  refine ⟨trivial, trivial, ⟨rfl, by simp⟩, trivial, trivial, trivial, trivial, trivial, trivial,
    ⟨rfl, by simp⟩, ⟨rfl, ?_⟩, trivial, trivial, trivial⟩
  rintro k hk -
  obtain rfl := mem_singleton.mp hk
  rfl

end Hopclaw.Store.Appending
