import Hopclaw.Text.GoPath
import Mathlib

/-! # The choice of a release

What the update check installs (`internal/update/check.go`): version texts are parsed into
comparable versions, and a release is chosen from a manifest or from the list GitHub returns by
comparing those. A comparison with a text that does not parse answers "equal".

Both choices have one shape: the releases are filtered, by the requested version or by channel, then
sorted, and the first is taken. The filter is what decides; the sort is a parameter, since the
comparison need not be an order. -/

namespace Hopclaw.Update

open GoStrings

/-! ## Versions -/

/-- `strconv.Atoi`: digits behind an optional sign, in the range of a 64-bit integer. -/
def atoi (s : String) : Option ℤ :=
  let value : Option ℤ :=
    if hasPrefix s "-" then (parseUint (trimPrefix s "-")).map fun n => -(n : ℤ)
    else (parseUint (trimPrefix s "+")).map Int.ofNat
  value.filter fun n => -2 ^ 63 ≤ n ∧ n < 2 ^ 63

inductive PrereleasePart where
  | number (n : ℤ)
  | text (t : String)
deriving DecidableEq

/-- A parsed version. Its `stageRank` is always that of its label, and `base` has three numbers. -/
@[ext] structure ComparableVersion where
  base : List ℤ
  stageLabel : String := "stable"
  parts : List PrereleasePart := []
deriving DecidableEq

def stageRank (label : String) : ℕ :=
  match toLower (trimSpace label) with
  | "stable" | "" => 5
  | "rc" => 4
  | "beta" => 3
  | "nightly" | "dev" => 2
  | "alpha" => 1
  | _ => 0

/-- The stage of a pre-release's first token: the text up to the first digit, and the number that
    follows it. -/
def splitStageToken (token : String) : String × Option ℤ :=
  let token := trimSpace (toLower token)
  let label := String.ofList (token.toList.takeWhile (!·.isDigit))
  let rest := String.ofList (token.toList.dropWhile (!·.isDigit))
  (if label = "" then "prerelease" else label, if rest = "" then none else atoi rest)

/-- What a later token adds to the parts; a blank one adds nothing. -/
def tokenPart (token : String) : Option PrereleasePart :=
  match trimSpace (toLower token) with
  | "" => none
  | token => some ((atoi token).elim (.text token) .number)

/-- The texts before and after the first `sep`; all of it and `""` where there is none. -/
def cut (s : String) (sep : Char) : String × String :=
  (String.ofList (s.toList.takeWhile (· ≠ sep)),
    String.ofList ((s.toList.dropWhile (· ≠ sep)).drop 1))

/-- `strings.Split` at dots. -/
def splitDots (s : String) : List String :=
  (GoPath.splitOn '.' s.toList).map String.ofList

/-- A version text without a leading `v` and its build metadata, cut into the base numbers and the
    pre-release part. -/
def versionTexts (v : String) : String × String :=
  cut (cut (trimSpace (trimPrefix v "v")) '+').1 '-'

def parseComparableVersion (v : String) : Option ComparableVersion :=
  let raw := trimSpace (trimPrefix v "v")
  let baseParts := splitDots (versionTexts v).1
  if raw = "" || equalFold raw "dev" || baseParts.length ≠ 3 then none
  else
    (baseParts.mapM fun part => atoi (trimSpace part)).bind fun base =>
      if trimSpace (versionTexts v).2 = "" then some { base }
      else
        match splitDots (versionTexts v).2 with
        | [] => none
        | token :: tokens =>
          let (stageLabel, trailingNumber) := splitStageToken token
          some {
            base, stageLabel
            parts := (trailingNumber.map .number).toList ++ tokens.filterMap tokenPart }

def comparePrereleasePart : PrereleasePart → PrereleasePart → Ordering
  | .number a, .number b => compare a b
  | .number _, .text _ => .lt
  | .text _, .number _ => .gt
  | .text a, .text b => compare a b

def compareVersions (a b : String) : Ordering :=
  match parseComparableVersion a, parseComparableVersion b with
  | some a, some b =>
    (List.compareLex compare a.base b.base).then <|
    (compare (stageRank a.stageLabel) (stageRank b.stageLabel)).then <|
    (compare a.stageLabel b.stageLabel).then <|
    List.compareLex comparePrereleasePart a.parts b.parts
  | _, _ => .eq

def sameVersion (a b : String) : Bool :=
  compareVersions a b = .eq

/-! ## Releases -/

def normalizeChannel (channel : String) : String :=
  match toLower (trimSpace channel) with
  | "" | "stable" => "stable"
  | "nightly" | "dev" => "nightly"
  | other => other

/-- The library calls of a selection. -/
structure Lib where
  /-- `parseReleaseTime`, as a position on the time line; the zero time for what does not parse. -/
  parseReleaseTime : String → ℤ
  /-- `sort.Slice`. The comparison passed to it is not transitive where versions do not parse, so
      only that it permutes is known. -/
  sortSlice : {α : Type} → (α → α → Bool) → (l : List α) → { l' : List α // l'.Perm l }

/-- The first of the sorted `items`, or the error where there are none. -/
def Lib.firstSorted {α : Type} (lib : Lib) (less : α → α → Bool) (items : List α) (err : String) :
    Except String α :=
  match (lib.sortSlice less items).1 with
  | item :: _ => .ok item
  | [] => .error err

def compareReleaseOrder (lib : Lib) (versionA publishedA versionB publishedB : String) : Ordering :=
  (compareVersions versionA versionB).then
    (compare (lib.parseReleaseTime publishedA) (lib.parseReleaseTime publishedB))

structure ReleaseManifest where
  version : String
  channel : String := ""
  publishedAt : String := ""

structure ManifestChannel where
  latest : String
  releases : List ReleaseManifest

structure ReleaseManifestFile where
  channels : String → Option ManifestChannel
  releases : List ReleaseManifest

/-- The first release of each channel and version, given the keys `seen` so far. -/
def dedupeManifestReleases (seen : List String) : List ReleaseManifest → List ReleaseManifest
  | [] => []
  | item :: items =>
    let key := normalizeChannel item.channel ++ ":" ++ trimSpace item.version
    if key = ":" || key ∈ seen then dedupeManifestReleases seen items
    else item :: dedupeManifestReleases (key :: seen) items

/-- The release a channel names as its latest, where no version is requested. -/
def latestRelease (manifest : ReleaseManifestFile) (entry : ManifestChannel)
    (requestedVersion : String) : Option ReleaseManifest :=
  if requestedVersion = "" && trimSpace entry.latest ≠ "" then
    (entry.releases ++ manifest.releases).find? (sameVersion ·.version entry.latest)
  else none

def selectManifestRelease (lib : Lib) (manifest : ReleaseManifestFile)
    (channel requestedVersion : String) : Except String ReleaseManifest :=
  let entry := manifest.channels (normalizeChannel channel)
  match entry.bind (latestRelease manifest · requestedVersion) with
  | some rel => .ok rel
  | none =>
    let candidates := manifest.releases ++ (entry.elim [] (·.releases))
    if candidates.isEmpty then
      .error ("no manifest releases available for channel " ++ normalizeChannel channel)
    else
      let named := (dedupeManifestReleases [] candidates).map fun rel =>
        { rel with channel := normalizeChannel (firstNonEmpty [rel.channel, channel]) }
      let filtered := named.filter fun rel =>
        if requestedVersion ≠ "" then sameVersion rel.version requestedVersion
        else rel.channel = normalizeChannel channel
      lib.firstSorted (fun a b =>
          compareReleaseOrder lib a.version a.publishedAt b.version b.publishedAt = .gt) filtered
        (if requestedVersion ≠ "" then "version " ++ requestedVersion ++ " not found in manifest"
          else "channel " ++ normalizeChannel channel ++ " not found in manifest")

structure GithubRelease where
  tagName : String
  prerelease : Bool := false
  publishedAt : String := ""

def selectGitHubRelease (lib : Lib) (items : List GithubRelease)
    (channel requestedVersion : String) : Except String GithubRelease :=
  let filtered := items.filter fun item =>
    (requestedVersion = "" || sameVersion item.tagName requestedVersion) &&
      !(normalizeChannel channel = "stable" && item.prerelease)
  lib.firstSorted (fun a b =>
      compareReleaseOrder lib a.tagName a.publishedAt b.tagName b.publishedAt = .gt) filtered
    (if requestedVersion ≠ "" then
        "version " ++ requestedVersion ++ " not found in GitHub releases"
      else "no GitHub releases available for channel " ++ normalizeChannel channel)

end Hopclaw.Update
