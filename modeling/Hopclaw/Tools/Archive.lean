import Hopclaw.Tools.Workspace

/-! # Unpacking archives

`handleUnzip` and `handleUntar` of `toolruntime/archive/archive.go`: which files they write, and
where. Reading an archive is an argument; what it contains decides everything that follows. The
number of bytes and the file modes are left out. -/

namespace Hopclaw.Tools

open GoStrings FileTree Workspace

inductive EntryKind
  | dir
  | file
  /-- An entry of a tar archive that is neither, which is passed over. -/
  | other
  deriving DecidableEq

structure ArchiveEntry where
  name : String
  kind : EntryKind
  /-- Why the entry cannot be opened for reading, if it cannot. -/
  openError : Option String := none
  /-- Why its content ends early, if it does. -/
  copyError : Option String := none

/-- The entries up to the end of an archive or to an error in it. -/
structure Archive where
  entries : List ArchiveEntry
  readError : Option String := none

/-- A file that was opened for writing: its path and its place. -/
structure Written where
  dest : Path
  place : Path
deriving DecidableEq

/-- How far an extraction came. -/
structure Extraction where
  tree : Tree
  written : List Written := []
  fileCount : ℕ := 0
  error : Option String := none

/-- `filepath.Join(resolvedOutput, name)`. -/
def destPath (out : Path) (name : String) : Path :=
  GoPath.cleanSegments true (out ++ pieces name)

/-- The guard against paths that leave the output directory. It compares texts that end in a slash,
    so that below the root of the file system it refuses everything. -/
def staysBelow (out dest : Path) : Bool :=
  out ≠ [] && out.isPrefixOf dest || dest = out

def Extraction.fail (s : Extraction) (tool text : String) : Extraction :=
  { s with error := some (tool ++ ": " ++ text) }

def Extraction.failOS (s : Extraction) (tool : String) (err : Errno) : Extraction :=
  s.fail tool (PathError.os err).text

/-- A file with the directories above it. -/
def extractFile (tool : String) (dest : Path) (s : Extraction) (e : ArchiveEntry) : Extraction :=
  match mkdirAll osLinks s.tree dest.dropLast with
  | .error err => s.failOS tool err
  | .ok tree =>
    let made : Extraction := { s with tree }
    match e.openError with
    | some text => made.fail tool text
    | none =>
      match createFile osLinks tree dest with
      | .error err => made.failOS tool err
      | .ok (place, tree') =>
        let opened : Extraction := { s with
          tree := tree'
          written := s.written ++ [{ dest, place }] }
        match e.copyError with
        | some text => opened.fail tool text
        | none => { opened with fileCount := s.fileCount + 1 }

def extractEntry (tool : String) (out : Path) (s : Extraction) (e : ArchiveEntry) : Extraction :=
  let dest := destPath out e.name
  if !staysBelow out dest then s.fail tool ("illegal path in archive: " ++ e.name)
  else
    match e.kind with
    | .dir =>
      match mkdirAll osLinks s.tree dest with
      | .error err => s.failOS tool err
      | .ok tree => { s with tree }
    | .file => extractFile tool dest s e
    | .other => s

/-- The loop over the entries, which ends at the first error. -/
def extractAll (tool : String) (out : Path) : Extraction → List ArchiveEntry → Extraction
  | s, [] => s
  | s, e :: rest =>
    let s' := extractEntry tool out s e
    if s'.error.isSome then s' else extractAll tool out s' rest

variable (tool : String) (openArchive : Path → Except String Archive)
  (glob : String → String → Bool) (t : Tree) (w : Workspace) (input : List (String × Value))

/-- The field `output`, blank where it is no text. -/
def outputDir : String :=
  match stringFrom (Value.index input "output") with
  | .ok s => s
  | .error _ => ""

/-- The directory of the archive where no output directory is given. -/
def resolvedOutput (resolvedArchive : Path) : Except PathError Path :=
  if trimSpace (outputDir input) = "" then .ok resolvedArchive.dropLast
  else w.resolvePath glob t (outputDir input)

/-- The two tools differ in the archives they read. -/
def handleExtract : Extraction :=
  let start : Extraction := { tree := t }
  match requiredString input "path" with
  | .error err => start.fail tool err.text
  | .ok archivePath =>
    match w.resolvePath glob t archivePath with
    | .error err => start.fail tool err.text
    | .ok resolvedArchive =>
      match resolvedOutput glob t w input resolvedArchive with
      | .error err => start.fail tool ("output: " ++ err.text)
      | .ok out =>
        match openArchive resolvedArchive with
        | .error text => start.fail tool text
        | .ok archive =>
          let s := extractAll tool out start archive.entries
          match s.error, archive.readError with
          | none, some text => s.fail tool text
          | _, _ => s

def handleUnzip : Extraction :=
  handleExtract "archive.unzip" openArchive glob t w input

def handleUntar : Extraction :=
  handleExtract "archive.untar" openArchive glob t w input

end Hopclaw.Tools
