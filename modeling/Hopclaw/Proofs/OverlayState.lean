import Hopclaw.Interleaving.Machine
import Hopclaw.Overlay.Resolver

/-! # The merged providers, and calls that fail

The map and the views are updated row by row, each row for its own name only, so a name is decided
by the row that has it.

A call of the resolver replaces the inputs before it builds from them, and keeps them if the build
fails. The states are replaced only by a build that succeeds, so what can be read of the resolver
does not change; but the next refresh builds from the new inputs. Hence a failed call is without
effect only if its arguments are those that the resolver has already. Which ones these are is
decided by the calls before, as long as the defaults, which are filled into slices that the built
configuration shares with the base, do not change the bases that were given. -/

namespace Hopclaw.Overlay

open List Interleaving Resolver

variable {K : Kinds} (lib : Lib K)

/-! ## Merging -/

/-- The API row of a name. -/
def apiRow (rows : List (ProviderConfigRow K)) (name : String) : Option (ProviderConfigRow K) :=
  rows.find? fun row => row.source = .api ∧ row.name = name

/-- What a row says its name is to hold. -/
def rowConfig (row : ProviderConfigRow K) : Option K.Provider :=
  if row.disabled then none else some (lib.rowToProviderConfig row)

/-- The view of a row. -/
def Shows (row : ProviderConfigRow K) (view : ProviderProjection K) : Prop :=
  view.name = row.name ∧ view.enabled = row.enabled ∧ view.config = lib.rowToProviderConfig row

/-- Some row is to be assigned. -/
def Assigns (rows : List (ProviderConfigRow K)) : Prop :=
  ∃ row ∈ rows, row.source = .api ∧ row.disabled = false

variable {row : ProviderConfigRow K}

theorem applyProviderRow_spec {acc acc' : ProviderMap K × Views K}
    (h : applyProviderRow lib acc row = .ok acc') : (acc'.1 = none ↔ acc.1 = none) ∧ ∀ name,
      acc'.1.get name = (if row.source = .api ∧ row.name = name then rowConfig lib row
        else acc.1.get name) ∧
      (if row.source = .api ∧ row.name = name then
        ∃ view, acc'.2.lookup name = some view ∧ Shows lib row view
      else acc'.2.lookup name = acc.2.lookup name) := by
  obtain ⟨m, views⟩ := acc
  unfold applyProviderRow at h
  by_cases hsource : row.source = .api
  · rw [if_neg (not_not.mpr hsource)] at h
    by_cases hdisabled : row.disabled
    · rw [if_pos hdisabled] at h
      cases h
      refine ⟨by simp, fun name => ?_⟩
      by_cases hname : row.name = name
      · subst hname
        cases m <;> simp [ProviderMap.get, hsource, rowConfig, hdisabled, Shows]
      · cases m <;> simp [ProviderMap.get, hname, Ne.symm hname]
    · rw [if_neg hdisabled] at h
      cases m with
      | none => cases h
      | some m =>
        cases h
        refine ⟨by simp, fun name => ?_⟩
        by_cases hname : row.name = name
        · subst hname
          simp [ProviderMap.get, hsource, rowConfig, hdisabled, Shows]
        · simp [ProviderMap.get, hname, Ne.symm hname]
  · rw [if_pos hsource] at h
    cases h
    simp [hsource]

theorem applyProviderRow_panics {acc : ProviderMap K × Views K} {e : Failure} :
    applyProviderRow lib acc row = .error e ↔
      e = .panic ∧ acc.1 = none ∧ row.source = .api ∧ row.disabled = false := by
  obtain ⟨m, views⟩ := acc
  unfold applyProviderRow
  by_cases hsource : row.source = .api <;> cases row.disabled <;> cases m <;>
    simp [hsource, eq_comm (a := e)]

/-- The rows one after another. -/
theorem foldlM_applyProviderRow (rows : List (ProviderConfigRow K))
    (hdistinct : (rows.map (·.name)).Nodup) : ∀ acc : ProviderMap K × Views K,
    (acc.1 = none ∧ Assigns rows → rows.foldlM (applyProviderRow lib) acc = .error .panic) ∧
    (¬ (acc.1 = none ∧ Assigns rows) → ∃ m views,
      rows.foldlM (applyProviderRow lib) acc = .ok (m, views) ∧ ∀ name,
        m.get name = (apiRow rows name).elim (acc.1.get name) (rowConfig lib) ∧
        (apiRow rows name).elim (views.lookup name = acc.2.lookup name) fun row =>
          ∃ view, views.lookup name = some view ∧ Shows lib row view) := by
  induction rows with
  | nil => exact fun acc => ⟨fun h => by simp [Assigns] at h,
      fun _ => ⟨acc.1, acc.2, rfl, fun name => ⟨rfl, rfl⟩⟩⟩
  | cons row rows ih =>
    intro acc
    obtain ⟨hfresh, hrest⟩ := nodup_cons.mp hdistinct
    rw [foldlM_cons]
    have hassigns : Assigns (row :: rows) ↔
        (row.source = .api ∧ row.disabled = false) ∨ Assigns rows := by simp [Assigns]
    cases hrow : applyProviderRow lib acc row with
    | error e =>
      obtain ⟨rfl, hnil, hassign⟩ := (applyProviderRow_panics lib).mp hrow
      exact ⟨fun _ => rfl, fun h => absurd ⟨hnil, hassigns.mpr (.inl hassign)⟩ h⟩
    | ok acc' =>
      obtain ⟨hnil, hstep⟩ := applyProviderRow_spec lib hrow
      have hkept : acc'.1 = none ∧ Assigns rows ↔ acc.1 = none ∧ Assigns (row :: rows) := by
        rw [hnil, hassigns]
        refine and_congr_right fun hacc => ⟨.inr, fun h => h.resolve_left fun hassign => ?_⟩
        have := (applyProviderRow_panics lib).mpr ⟨rfl, hacc, hassign⟩
        simp [hrow] at this
      obtain ⟨hpanic, hok⟩ := ih hrest acc'
      refine ⟨fun h => hpanic (hkept.mpr h), fun h => ?_⟩
      obtain ⟨m, views, hrun, hafter⟩ := hok (hkept.not.mpr h)
      refine ⟨m, views, hrun, fun name => ?_⟩
      -- The names are distinct: if this row has the name, no later one does.
      by_cases hmine : row.source = .api ∧ row.name = name
      · have hlater : apiRow rows name = none := by
          refine find?_eq_none.mpr fun other hother hname => hfresh ?_
          exact mem_map.mpr ⟨other, hother, (of_decide_eq_true hname).2.trans hmine.2.symm⟩
        have hnow := hstep name
        have := hafter name
        rw [if_pos hmine, if_pos hmine] at hnow
        rw [hlater] at this
        rw [apiRow, find?_cons_of_pos (by simpa using hmine), this.1, this.2]
        exact hnow
      · have hnow := hstep name
        rw [if_neg hmine, if_neg hmine] at hnow
        rw [apiRow, find?_cons_of_neg (by simpa using hmine), ← hnow.1, ← hnow.2]
        exact hafter name

/-! ## The built state -/

/-- What the merged provider map is to contain. -/
structure Merged (base : ProviderMap K) (rows : List (ProviderConfigRow K))
    (m : ProviderMap K) : Prop where
  row : ∀ row ∈ rows, row.source = .api → m.get row.name = rowConfig lib row
  base : ∀ name, (∀ row ∈ rows, row.source = .api → row.name ≠ name) → m.get name = base.get name

theorem apiRow_of_mem {rows : List (ProviderConfigRow K)} (h : (rows.map (·.name)).Nodup)
    (hrow : row ∈ rows) (hsource : row.source = .api) : apiRow rows row.name = some row := by
  cases hfound : apiRow rows row.name with
  | none => simpa [hsource] using find?_eq_none.mp hfound row hrow
  | some other =>
    have hname : other.source = .api ∧ other.name = row.name := by
      simpa using find?_some hfound
    rw [inj_on_of_nodup_map h (mem_of_find?_eq_some hfound) hrow hname.2]

variable {base : ProviderMap K}

theorem merged_iff {rows : Rows K} {m : ProviderMap K} : Merged lib base rows.providers m ↔ ∀ name,
      m.get name = (apiRow rows.providers name).elim (base.get name) (rowConfig lib) := by
  constructor
  · intro h name
    cases hrow : apiRow rows.providers name with
    | none =>
      refine h.base name fun row hmem hsource hname => ?_
      simpa [hsource, hname] using find?_eq_none.mp hrow row hmem
    | some row =>
      have hmine : row.source = .api ∧ row.name = name := by simpa using find?_some hrow
      obtain ⟨hsource, rfl⟩ := hmine
      exact h.row row (mem_of_find?_eq_some hrow) hsource
  · intro h
    refine ⟨fun row hrow hsource => ?_, fun name hnone => ?_⟩
    · rw [h, apiRow_of_mem rows.distinct hrow hsource]
      rfl
    · rw [h, apiRow, find?_eq_none.mpr fun row hrow hmine =>
        hnone row hrow (of_decide_eq_true hmine).1 (of_decide_eq_true hmine).2]
      rfl

theorem get_cloneProviderMap (base : ProviderMap K) (name : String) :
    (cloneProviderMap base).get name = base.get name := by
  cases base with
  | none => rfl
  | some m =>
    by_cases hlen : 0 < m.entries.length
    · rw [cloneProviderMap, Option.filter_some_pos (by simpa using hlen)]
    · obtain rfl : m = ∅ := AList.ext (by simpa using hlen)
      rfl

theorem cloneProviderMap_eq_none : cloneProviderMap base = none ↔ ∀ name, base.get name = none := by
  constructor
  · intro h name
    rw [← get_cloneProviderMap, h]
    rfl
  · intro h
    refine Option.filter_eq_none_iff.mpr fun m hm hlen => ?_
    obtain ⟨e, he⟩ := exists_mem_of_length_pos (of_decide_eq_true hlen)
    have hget := h e.1
    rw [hm, ProviderMap.get, Option.bind_some, AList.mem_lookup_iff.mpr he] at hget
    cases hget

theorem baseViews_spec {items : ProviderMap K} {name : String} {view : ProviderProjection K}
    (h : (baseViews items).lookup name = some view) :
    view.name = name ∧ items.get name = some view.config := by
  cases items with
  | none => simp [baseViews] at h
  | some m =>
    have hall : ∀ name view, (baseViews (some m)).lookup name = some view →
        view.name = name ∧ m.lookup name = some view.config := by
      refine foldlRecOn (motive := fun views : Views K => ∀ name view,
        views.lookup name = some view → view.name = name ∧ m.lookup name = some view.config)
        m.entries _ (by simp) fun views hviews e he _ _ => Maps.forall_insert (hviews _ _) ?_
      exact ⟨rfl, AList.mem_lookup_iff.mpr he⟩
    exact hall name view h

/-- The merge panics, or the map holds what the rows and the base say and the views that are not
    disabled agree with it. -/
theorem mergeProviders_spec (base : ProviderMap K) (rows : Rows K) :
    ((∀ name, base.get name = none) ∧ Assigns rows.providers ∧
      mergeProviders lib base rows.providers = .error .panic) ∨
    (((∃ name, base.get name ≠ none) ∨ ¬ Assigns rows.providers) ∧ ∃ m views,
      mergeProviders lib base rows.providers = .ok (m, views) ∧
      Merged lib base rows.providers m ∧ ∀ view ∈ orderedProviderProjections views,
        view.enabled ≠ some false → m.get view.name = some view.config) := by
  obtain ⟨hpanic, hok⟩ := foldlM_applyProviderRow lib rows.providers rows.distinct
    (cloneProviderMap base, baseViews (cloneProviderMap base))
  rw [cloneProviderMap_eq_none] at hpanic hok
  by_cases hnil : (∀ name, base.get name = none) ∧ Assigns rows.providers
  · exact .inl ⟨hnil.1, hnil.2, hpanic hnil⟩
  · obtain ⟨m, views, hrun, hspec⟩ := hok hnil
    refine .inr ⟨by simpa [imp_iff_not_or] using hnil, m, views, hrun,
      (merged_iff lib).mpr fun name => ?_, fun view hview henabled => ?_⟩
    · rw [(hspec name).1, get_cloneProviderMap]
    · obtain ⟨name, -, hlookup⟩ := mem_filterMap.mp hview
      obtain ⟨hget, hshown⟩ := hspec name
      cases hrow : apiRow rows.providers name with
      | none =>
        rw [hrow] at hget hshown
        obtain ⟨rfl, hbase⟩ := baseViews_spec (hshown.symm.trans hlookup)
        exact hget.trans hbase
      | some row =>
        rw [hrow] at hget hshown
        obtain ⟨view', hlookup', hname, henabled', hconfig⟩ := hshown
        obtain rfl : view' = view := Option.some.inj (hlookup'.symm.trans hlookup)
        have hmine : row.source = .api ∧ row.name = name := by simpa using find?_some hrow
        rw [hname, hmine.2, hget, hconfig]
        exact if_neg (by simpa [ProviderConfigRow.disabled, ← henabled'] using henabled)

theorem finishState_spec (inputs : Inputs K) (built : List Layer × Views K × Overlaid K) :
    finishState lib inputs built ≠ .error .panic ∧
    ∀ state, finishState lib inputs built = .ok state →
      state.config.providers = built.2.2.config.providers ∧
      state.providers = orderedProviderProjections built.2.1 := by
  unfold finishState
  dsimp only
  split
  · exact ⟨by simp, by simp⟩
  · exact ⟨by simp, by simp⟩
  · refine ⟨by simp, ?_⟩
    rintro _ ⟨⟩
    exact ⟨rfl, rfl⟩

/-- Configurations that are only valid or not, and one name of a provider. -/
def bareKinds : Kinds :=
  ⟨Unit, Unit, Unit, Bool, Unit, Unit, Unit, Unit, Unit, Unit, Unit⟩

def bareLib : Lib bareKinds where
  rowToProviderConfig _ := ()
  applyOverlays config _ _ := .ok ⟨config, (), (), [], true⟩
  defaultEntries := id
  defaultRest config := config.rest
  validate config := bif config.rest then .ok () else .error "invalid"
  runtimeConfig := .ok
  snapshot _ _ _ := none
  snapshotID _ := ""
  hashConfig _ _ := "0"
  diff _ _ := ()
  noChange := ()

def bareBase (valid : Bool) : Config bareKinds :=
  ⟨none, (), valid⟩

/-- `ApplyDefaults` finds nothing to fill in in the slices of the configuration. -/
def Config.Settled (config : Config K) : Prop :=
  lib.defaultEntries config.entries = config.entries

def Call.Settled : Call K → Prop
  | .setBase base | .reconfigure base _ _ _ => base.Settled lib
  | .refresh => True

/-- A call with what the store gives it. -/
def Resolver.step (r : Resolver K) (call : Call K × Except String (Rows K)) :
    Except Failure Unit × Resolver K :=
  r.call lib call.1 call.2

/-- The inputs that the arguments of the calls amount to. -/
def given (inputs : Inputs K) (calls : List (Call K × Except String (Rows K))) : Inputs K :=
  calls.foldl (fun inputs call => call.1.inputs inputs) inputs

variable {lib} {i : Inputs K}

theorem Call.Settled.inputs_base {call : Call K} (h : call.Settled lib) (hbase : i.base.Settled lib) :
    (call.inputs i).base.Settled lib := by
  cases call with
  | refresh => exact hbase
  | _ => exact h

/-- The defaults change nothing in a base that is settled. -/
theorem baseAfter_of_settled (h : i.base.Settled lib) (stored : Except String (Rows K)) :
    baseAfter lib i stored = i.base := by
  unfold baseAfter
  split
  · split_ifs
    · rw [show lib.defaultEntries _ = _ from h]
    · rfl
  · rfl

/-- Whatever comes of a call, its arguments stay; only a call that succeeds changes the states. -/
theorem call_cases {r : Resolver K} {call : Call K}
    (h : (call.inputs r.inputs).base.Settled lib) (stored : Except String (Rows K)) :
    (r.call lib call stored).2.inputs = call.inputs r.inputs ∧
      ∀ e, (r.call lib call stored).1 = .error e →
        (r.call lib call stored).2 = { r with inputs := call.inputs r.inputs } := by
  unfold Resolver.call refreshLocked
  dsimp only
  rw [baseAfter_of_settled h]
  split
  · exact ⟨rfl, fun _ _ => rfl⟩
  · split_ifs <;> exact ⟨rfl, by simp⟩

theorem inputs_after {r : Resolver K} (hbase : r.inputs.base.Settled lib)
    (calls : List (Call K × Except String (Rows K))) (hcalls : ∀ c ∈ calls, c.1.Settled lib) :
    (runAll (next (step lib)) r calls).inputs = given r.inputs calls ∧
      (given r.inputs calls).base.Settled lib := by
  induction calls generalizing r with
  | nil => exact ⟨rfl, hbase⟩
  | cons c calls ih =>
    obtain ⟨hc, hrest⟩ := forall_mem_cons.mp hcalls
    have hsettled := Call.Settled.inputs_base hc hbase
    have hinputs := (call_cases hsettled c.2).1
    have hafter := ih (r := (r.step lib c).2) (by rw [step, hinputs]; exact hsettled) hrest
    rwa [step, hinputs] at hafter

/-- After any calls whose bases are settled, a call that fails changes no answer of `Current`,
    `Version` and `DiffSince`, and it leaves the resolver as it was exactly if its arguments amount
    to what the calls before have given. -/
theorem failed_call_leaves_resolver_iff (r : Resolver K) (hbase : r.inputs.base.Settled lib)
    (calls : List (Call K × Except String (Rows K))) (call : Call K)
    (stored : Except String (Rows K)) (hcalls : ∀ c ∈ calls ++ [(call, stored)], c.1.Settled lib)
    {message : String} :
    let before := runAll (next (step lib)) r calls
    let after := before.call lib call stored
    after.1 = .error (.failed message) →
      after.2.state = before.state ∧
      (∀ version, after.2.diffSince lib version = before.diffSince lib version) ∧
      (after.2 = before ↔ call.inputs (given r.inputs calls) = given r.inputs calls) := by
  intro before after hfailed
  obtain ⟨hinputs, hsettled⟩ :=
    inputs_after hbase calls fun c hc => hcalls c (mem_append_left _ hc)
  have hcall : (call.inputs before.inputs).base.Settled lib := by
    rw [hinputs]
    exact Call.Settled.inputs_base (hcalls (call, stored) (by simp)) hsettled
  have hafter : after.2 = { before with inputs := call.inputs before.inputs } :=
    (call_cases hcall stored).2 _ hfailed
  rw [hafter, ← hinputs]
  exact ⟨rfl, fun _ => rfl, congrArg inputs, fun h => by rw [h]⟩

def bareResolver : Resolver bareKinds where
  inputs := ⟨bareBase true, [], (), ()⟩
  state := ⟨bareBase true, bareBase true, none, [], (), (), [], "cfg-0", ()⟩

def noRows : Rows bareKinds :=
  ⟨[], (), by simp⟩

/-- A refresh that cannot read the store. -/
theorem failed_refresh_leaves_resolver :
    (bareResolver.call bareLib .refresh (.error "locked")).1 = .error (.failed "locked") ∧
      (bareResolver.call bareLib .refresh (.error "locked")).2 = bareResolver :=
  ⟨rfl, (failed_call_leaves_resolver_iff bareResolver rfl [] .refresh (.error "locked")
    (by simp [Call.Settled]) rfl).2.2.mpr rfl⟩

/-- The invalid base stays, so the next refresh fails too. -/
theorem failed_setBase_stays :
    let after := bareResolver.call bareLib (.setBase (bareBase false)) (.ok noRows)
    after.1 = .error (.failed "validate effective config: invalid") ∧
      (after.2.call bareLib .refresh (.ok noRows)).1 =
        .error (.failed "validate effective config: invalid") ∧
      (bareResolver.call bareLib .refresh (.ok noRows)).1 = .ok () :=
  ⟨rfl, rfl, rfl⟩

end Hopclaw.Overlay
