import Hopclaw.FileTree.Edit
import Hopclaw.Tools.Input

/-! # The workspace of the file tools

`toolruntime/workspace.go` and `deleteFile` of `toolruntime/builtin.go`: how the path of a tool
call becomes an absolute path, and which paths are let through. A path is the list of its pieces;
the separator is the slash. `filepath.Match` is the argument `glob`, false where the pattern is
malformed. -/

namespace Hopclaw.Tools

open GoStrings FileTree GoPath

/-- The links that the kernel follows before it gives up. -/
def osLinks : ℕ := 40

/-- The links that `filepath.EvalSymlinks` follows before it gives up. -/
def evalLinks : ℕ := 255

def evalSymlinks (t : Tree) (p : Path) : Except Errno Path :=
  (walk t evalLinks [] p).toExcept

/-- The pieces of the text of a path. -/
def pieces (s : String) : List Seg :=
  splitOn '/' s.toList

/-- The text of an absolute path. -/
def render (p : Path) : String :=
  String.ofList ('/' :: joinSegments p)

/-- `filepath.Abs` in the directory `cwd`. -/
def absPath (cwd : Path) (s : String) : Path :=
  cleanSegments true (if hasPrefix s "/" then pieces s else cwd ++ pieces s)

/-- `newWorkspace` and `setAllowedPaths` make the paths absolute and clean. -/
structure Workspace where
  rootAbs : Path
  allowedPaths : List Path := []
  denyPatterns : List String := []

namespace Workspace

/-! ## Allowed roots -/

/-- The root and the allowed paths. -/
def roots (w : Workspace) : List Path :=
  w.rootAbs :: w.allowedPaths

/-- Each root as it is written and, where links lead elsewhere, as it is found. -/
def allowedRoots (t : Tree) (w : Workspace) : List Path :=
  w.roots.flatMap fun path =>
    path :: match evalSymlinks t path with
      | .ok realPath => if realPath ≠ path then [realPath] else []
      | .error _ => []

end Workspace

/-- The relative path from a root to a path below it does not start with `..`. -/
def withinAllowedRoots (candidate : Path) (roots : List Path) : Bool :=
  roots.any fun root => root.isPrefixOf candidate

inductive PathError
  | artifactURI (text : String)
  | required
  | escapes (p root : Path)
  | denied (p : Path)
  | os (err : Errno)
  deriving DecidableEq

/-- The texts of the workspace; those of the operating system are left to it. -/
def PathError.text : PathError → String
  | .artifactURI text => "path is an artifact URI: " ++ text
  | .required => "path is required"
  | .escapes p root =>
    "path " ++ quoted (render p) ++ " escapes builtin root " ++ quoted (render root)
  | .denied p => "path " ++ quoted (render p) ++ " is denied by fs constraints"
  | .os err => match err with
    | .notExist => "no such file or directory"
    | .exist => "file exists"
    | .notDir => "not a directory"
    | .isDir => "is a directory"
    | .notEmpty => "directory not empty"
    | .tooManyLinks => "too many levels of symbolic links"

/-- The loop up from a directory, on its pieces in reverse, to the first one with an entry. The root
    always has one. -/
def nearestExistingFrom (t : Tree) : Path → Except Errno Path
  | [] => evalSymlinks t []
  | name :: above =>
    match lstat t osLinks (name :: above).reverse with
    | .ok _ => evalSymlinks t (name :: above).reverse
    | .error .notExist => nearestExistingFrom t above
    | .error err => .error err

def nearestExistingParentReal (t : Tree) (start : Path) : Except Errno Path :=
  nearestExistingFrom t start.reverse

namespace Workspace

variable (glob : String → String → Bool) (t : Tree) (w : Workspace)

def authorizeAbsolutePath (p : Path) (followLeaf : Bool) : Except PathError Unit :=
  let within := fun candidate => withinAllowedRoots candidate (w.allowedRoots t)
  let escaped := Except.error (PathError.escapes p w.rootAbs)
  if within p && !followLeaf then .ok ()
  else
    match lstat t osLinks p with
    | .ok info =>
      if followLeaf then
        match evalSymlinks t p with
        | .error err => .error (.os err)
        | .ok realPath => if within realPath then .ok () else escaped
      else
        match info with
        | .link _ =>
          match nearestExistingParentReal t p.dropLast with
          | .error err => .error (.os err)
          | .ok parentReal =>
            if !within parentReal then escaped
            else if within p then .ok () else escaped
        | _ => if within p then .ok () else escaped
    | .error .notExist =>
      match nearestExistingParentReal t p.dropLast with
      | .error err => .error (.os err)
      | .ok parentReal => if within parentReal then .ok () else escaped
    | .error err => .error (.os err)

/-! ## Denied paths -/

/-- `filepath.Base`. -/
def base (p : Path) : String :=
  match p.getLast? with
  | none => "/"
  | some name => String.ofList name

/-- Relative to the root for a path below it, unless the first piece starts with two dots. -/
def displayPath (p : Path) : String :=
  if w.rootAbs.isPrefixOf p && p ≠ w.rootAbs then
    let rel := String.ofList (joinSegments (p.drop w.rootAbs.length))
    if hasPrefix rel ".." then render p else rel
  else render p

def isDeniedPath (p : Path) : Bool :=
  w.denyPatterns.any fun pattern =>
    [base p, render p, w.displayPath p].any fun candidate => glob pattern candidate

/-! ## Resolving the path of a call -/

/-- The absolute path that a trimmed input stands for. -/
def candidatePath (cleanInput : String) : Path :=
  absPath w.rootAbs cleanInput

def resolvePathWithMode (input : String) (allowRoot followLeaf : Bool) : Except PathError Path :=
  let trimmed := trimSpace input
  if hasPrefix trimmed "artifact://" || hasPrefix trimmed "artifact:/" then
    .error (.artifactURI trimmed)
  else
    let cleanInput := clean trimmed
    if cleanInput = "" || cleanInput = "." then
      if allowRoot then .ok w.rootAbs else .error .required
    else
      let p := w.candidatePath cleanInput
      match w.authorizeAbsolutePath t p followLeaf with
      | .error err => .error err
      | .ok () => if w.isDeniedPath glob p then .error (.denied p) else .ok p

def resolvePath (input : String) : Except PathError Path :=
  w.resolvePathWithMode glob t input false true

def resolvePathNoFollow (input : String) : Except PathError Path :=
  w.resolvePathWithMode glob t input false false

/-! ## Deleting -/

def osFailure {α : Type} (op : String) (err : Errno) : Except Err α :=
  failure (op ++ ": " ++ (PathError.os err).text)

/-- The tree after `fs.delete`. A directory goes with all that is in it if the call says so, and
    otherwise only if it is empty. -/
def deleteFile (input : List (String × Value)) : Except Err Tree := do
  let pathValue ← requiredString input "path"
  let recursive ← (boolFrom (Value.index input "recursive")).mapError fun err =>
    ⟨"invalid fs.delete recursive flag: " ++ err.text, err.sentinel⟩
  let resolvedPath ← (w.resolvePathNoFollow glob t pathValue).mapError fun err => ⟨err.text, none⟩
  match entry t osLinks resolvedPath with
  | .error err => osFailure "fs.delete" err
  | .ok e =>
    match t.node e with
    | none => osFailure "fs.delete" .notExist
    | some info =>
      if info = .dir && !recursive && t.entries.any (fun x => e.isPrefixOf x.1 && x.1 ≠ e) then
        osFailure "fs.delete" .notEmpty
      else .ok (t.remove e)

end Workspace

end Hopclaw.Tools
