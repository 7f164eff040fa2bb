import Hopclaw.Domain.Maps
import Hopclaw.Text.GoStrings

/-! # The effective configuration

`internal/controlplane/overlay/resolver.go`: provider rows of the configuration store over the
providers of the base configuration, and the resolver that keeps the state built last. Reading,
converting, validating and hashing configurations is left to a library. -/

namespace Hopclaw.Overlay

/-- The data that is only handed on. -/
structure Kinds where
  Provider : Type
  RowFields : Type
  /-- The elements of the slices of a configuration that `ApplyDefaults` writes to in place:
      approval providers, governance adapters and audit sinks. -/
  Entries : Type
  Rest : Type
  OtherRows : Type
  SnapshotBuilder : Type
  SettingPolicies : Type
  /-- The views of the channels, and those of the settings. -/
  Channels : Type
  Settings : Type
  Snapshot : Type
  ChangeSet : Type

variable {K : Kinds}

/-- `map[string]ProviderConfig`, possibly nil. -/
abbrev ProviderMap (K : Kinds) := Option (AList fun _ : String => K.Provider)

def ProviderMap.get (m : ProviderMap K) (name : String) : Option K.Provider :=
  m.bind (·.lookup name)

structure Config (K : Kinds) where
  /-- `Models.Providers`. -/
  providers : ProviderMap K
  entries : K.Entries
  rest : K.Rest

inductive ConfigSource
  | yaml
  | api
  deriving DecidableEq

structure ProviderConfigRow (K : Kinds) where
  name : String
  source : ConfigSource
  enabled : Option Bool
  fields : K.RowFields

def ProviderConfigRow.disabled (row : ProviderConfigRow K) : Bool :=
  row.enabled = some false

/-- What the store lists; names are the key of the table of providers. -/
structure Rows (K : Kinds) where
  providers : List (ProviderConfigRow K)
  others : K.OtherRows
  distinct : (providers.map (·.name)).Nodup

structure ProviderProjection (K : Kinds) where
  name : String
  config : K.Provider
  enabled : Option Bool := none
  source : ConfigSource
  basePresent : Bool

structure Layer where
  name : String
  kind : String
  source : String

/-- The configuration after the channel and setting overlays, their views, the layers they add, and
    whether its slices are still those of the base: applying a section makes a new configuration. -/
structure Overlaid (K : Kinds) where
  config : Config K
  channels : K.Channels
  settings : K.Settings
  layers : List Layer
  aliased : Bool

structure Lib (K : Kinds) where
  rowToProviderConfig : ProviderConfigRow K → K.Provider
  applyOverlays : Config K → K.OtherRows → K.SettingPolicies → Except String (Overlaid K)
  defaultEntries : K.Entries → K.Entries
  /-- `ApplyDefaults` and `normalizeModelSelection` on the rest of a configuration. -/
  defaultRest : Config K → K.Rest
  validate : Config K → Except String Unit
  /-- `deepCloneConfig` and `ResolveSecrets`. -/
  runtimeConfig : Config K → Except String (Config K)
  snapshot : K.SnapshotBuilder → Config K → List Layer → Option K.Snapshot
  snapshotID : K.Snapshot → String
  hashConfig : Config K → List Layer → String
  diff : Config K → Config K → K.ChangeSet
  noChange : K.ChangeSet

inductive Failure
  | panic
  | failed (message : String)

def Failure.returned {α : Type} : Except String α → Except Failure α :=
  Except.mapError .failed

structure Inputs (K : Kinds) where
  base : Config K
  baseLayers : List Layer
  buildSnapshot : K.SnapshotBuilder
  settings : K.SettingPolicies

structure State (K : Kinds) where
  config : Config K
  runtimeConfig : Config K
  snapshot : Option K.Snapshot
  providers : List (ProviderProjection K)
  channels : K.Channels
  settings : K.Settings
  layers : List Layer
  version : String
  diff : K.ChangeSet

/-! ## Building a state -/

abbrev Views (K : Kinds) := AList fun _ : String => ProviderProjection K

def cloneProviderMap (items : ProviderMap K) : ProviderMap K :=
  items.filter (0 < ·.entries.length)

def baseViews (items : ProviderMap K) : Views K :=
  (items.elim [] (·.entries)).foldl (fun views e => views.insert e.1
    { name := e.1, config := e.2, source := .yaml, basePresent := true }) ∅

variable (lib : Lib K)

/-- A row of the store. Assigning to a nil map panics; deleting from it does nothing. -/
def applyProviderRow (acc : ProviderMap K × Views K) (row : ProviderConfigRow K) :
    Except Failure (ProviderMap K × Views K) :=
  if row.source ≠ .api then .ok acc
  else
    let view : ProviderProjection K := {
      name := row.name
      config := lib.rowToProviderConfig row
      enabled := row.enabled
      source := row.source
      basePresent := (acc.2.lookup row.name).elim false (·.basePresent) }
    let views := acc.2.insert row.name view
    if row.disabled then .ok (acc.1.map (·.erase row.name), views)
    else
      match acc.1 with
      | none => .error .panic
      | some m => .ok (some (m.insert row.name view.config), views)

def mergeProviders (base : ProviderMap K) (rows : List (ProviderConfigRow K)) :
    Except Failure (ProviderMap K × Views K) :=
  rows.foldlM (applyProviderRow lib) (cloneProviderMap base, baseViews (cloneProviderMap base))

/-- `buildState` up to the defaults. -/
def overlaid (inputs : Inputs K) (stored : Except String (Rows K)) :
    Except Failure (List Layer × Views K × Overlaid K) := do
  let rows ← Failure.returned stored
  let (providers, views) ← mergeProviders lib inputs.base.providers rows.providers
  let o ← Failure.returned
    (lib.applyOverlays { inputs.base with providers } rows.others inputs.settings)
  let overlay := rows.providers.any (·.source = .api)
  let layers := if overlay then [⟨"provider-overlay", "overlay", "config_store"⟩] else []
  .ok (layers, views, o)

def orderedProviderProjections (views : Views K) : List (ProviderProjection K) :=
  (views.keys.mergeSort (· ≤ ·)).filterMap views.lookup

/-- `buildState` from the defaults on. -/
def finishState (inputs : Inputs K) (built : List Layer × Views K × Overlaid K) :
    Except Failure (State K) :=
  let (providerLayers, views, o) := built
  let config := { o.config with
    entries := lib.defaultEntries o.config.entries, rest := lib.defaultRest o.config }
  let layers := inputs.baseLayers ++ providerLayers ++ o.layers
  match lib.validate config, lib.runtimeConfig config with
  | .error message, _ => .error (.failed ("validate effective config: " ++ message))
  | .ok (), .error message => .error (.failed ("clone runtime config: " ++ message))
  | .ok (), .ok runtimeConfig =>
    let snapshot := lib.snapshot inputs.buildSnapshot config layers
    let id := GoStrings.trimSpace (snapshot.elim "" lib.snapshotID)
    .ok {
      config
      runtimeConfig
      snapshot
      providers := orderedProviderProjections views
      channels := o.channels
      settings := o.settings
      layers
      version := if id = "" then "cfg-" ++ lib.hashConfig config layers else id
      diff := lib.noChange }

def buildState (inputs : Inputs K) (stored : Except String (Rows K)) :
    Except Failure (State K) :=
  (overlaid lib inputs stored).bind (finishState lib inputs)

/-- The base configuration after `buildState`, which shares its slices. -/
def baseAfter (inputs : Inputs K) (stored : Except String (Rows K)) : Config K :=
  match overlaid lib inputs stored with
  | .ok (_, _, o) =>
    if o.aliased then { inputs.base with entries := lib.defaultEntries inputs.base.entries }
    else inputs.base
  | .error _ => inputs.base

/-! ## The resolver -/

structure Resolver (K : Kinds) where
  inputs : Inputs K
  state : State K
  previous : Option (State K) := none

/-- The calls; `none` in the options of `Reconfigure` keeps what there is. -/
inductive Call (K : Kinds)
  | setBase (base : Config K)
  | reconfigure (base : Config K) (baseLayers : List Layer)
      (snapshotBuilder : Option K.SnapshotBuilder) (settingPolicies : Option K.SettingPolicies)
  | refresh

/-- The inputs a call builds from; it keeps them whatever comes of it. -/
def Call.inputs (i : Inputs K) : Call K → Inputs K
  | .setBase base => { i with base }
  | .reconfigure base baseLayers snapshotBuilder settingPolicies => {
      base
      baseLayers
      buildSnapshot := snapshotBuilder.getD i.buildSnapshot
      settings := settingPolicies.getD i.settings }
  | .refresh => i

def refreshLocked (r : Resolver K) (stored : Except String (Rows K)) :
    Except Failure Unit × Resolver K :=
  let inputs := { r.inputs with base := baseAfter lib r.inputs stored }
  match buildState lib r.inputs stored with
  | .error e => (.error e, { r with inputs })
  | .ok state =>
    if r.state.version ≠ "" then
      (.ok (), { inputs, state := { state with diff := lib.diff r.state.config state.config }
                 previous := some r.state })
    else (.ok (), { r with inputs, state })

def Resolver.call (r : Resolver K) (call : Call K) (stored : Except String (Rows K)) :
    Except Failure Unit × Resolver K :=
  refreshLocked lib { r with inputs := call.inputs r.inputs } stored

def Resolver.diffSince (r : Resolver K) (version : String) : K.ChangeSet × Bool :=
  let version := GoStrings.trimSpace version
  if version = "" then (r.state.diff, false)
  else if version = GoStrings.trimSpace r.state.version then (lib.noChange, true)
  else if r.previous.any (version = GoStrings.trimSpace ·.version) then (r.state.diff, true)
  else (lib.noChange, false)

end Hopclaw.Overlay
