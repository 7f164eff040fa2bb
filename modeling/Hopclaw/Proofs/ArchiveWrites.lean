import Hopclaw.Proofs.PathConfinement
import Hopclaw.Tools.Archive

/-! # Denied paths and the files that archives write

The deny patterns are matched against the text of a path, and a link of an allowed name may lead to
a denied file. The archive tools check of each entry only that the text of its path stays below the
output directory; what is denied there, or behind a link, they write.

Where there are no links in the way the checks are enough. A path without links leads to itself. The
output directory leads inside, by the check that it has passed; an entry's path goes on below it, by
the guard; and if no link is among the rest, the file lies as far below the place of the directory.
Unpacking makes directories and files only, so this does not change from one entry to the next. -/

namespace Hopclaw.Tools

open FileTree Workspace List

/-! ## Where an extraction writes -/

/-- Written where its path leads, in a tree with more directories and files than the first one, for
    an entry that has passed the guard. -/
def Written.Guarded (t : Tree) (out : Path) (entries : List ArchiveEntry) (wr : Written) : Prop :=
  (∃ u, Fills t u ∧ Leads osLinks u wr.dest wr.place) ∧
    ∃ e ∈ entries, e.kind = .file ∧ wr.dest = destPath out e.name ∧ staysBelow out wr.dest = true

structure Extraction.Guarded (t : Tree) (out : Path) (entries : List ArchiveEntry)
    (s : Extraction) : Prop where
  fills : Fills t s.tree
  written : ∀ wr ∈ s.written, wr.Guarded t out entries

namespace Extraction.Guarded

variable {tool : String} {t : Tree} {out : Path} {entries : List ArchiveEntry} {s : Extraction}
  {e : ArchiveEntry}

theorem extractFile (h : s.Guarded t out entries) (he : e ∈ entries) (hkind : e.kind = .file)
    (hbelow : staysBelow out (destPath out e.name) = true) :
    (extractFile tool (destPath out e.name) s e).Guarded t out entries := by
  unfold Tools.extractFile
  split
  · exact ⟨h.fills, h.written⟩
  · rename_i u hmk
    have hu := h.fills.trans (mkdirAll_fills hmk)
    dsimp only
    split
    · exact ⟨hu, h.written⟩
    · split
      · exact ⟨hu, h.written⟩
      · rename_i place v hcreate
        obtain ⟨hleads, hfills⟩ := createFile_spec hcreate
        have hwritten : ∀ wr ∈ s.written ++ [{ dest := destPath out e.name, place }],
            Written.Guarded t out entries wr := by
          intro wr hwr
          rcases mem_append.mp hwr with hwr | hwr
          · exact h.written wr hwr
          · rw [mem_singleton.mp hwr]
            exact ⟨⟨u, hu, hleads⟩, e, he, hkind, rfl, hbelow⟩
        split <;> exact ⟨hu.trans hfills, hwritten⟩

theorem extractEntry (h : s.Guarded t out entries) (he : e ∈ entries) :
    (extractEntry tool out s e).Guarded t out entries := by
  unfold Tools.extractEntry
  dsimp only
  split
  · exact ⟨h.fills, h.written⟩
  · rename_i hbelow
    split
    · split
      · exact ⟨h.fills, h.written⟩
      · exact ⟨h.fills.trans (mkdirAll_fills ‹_›), h.written⟩
    · exact h.extractFile he ‹_› (by simpa using hbelow)
    · exact h

theorem extractAll {es : List ArchiveEntry} (h : s.Guarded t out entries)
    (hes : ∀ e ∈ es, e ∈ entries) : (extractAll tool out s es).Guarded t out entries := by
  induction es generalizing s with
  | nil => exact h
  | cons e rest ih =>
    obtain ⟨he, hrest⟩ := forall_mem_cons.mp hes
    rw [Tools.extractAll]
    split
    · exact h.extractEntry he
    · exact ih (h.extractEntry he) hrest

end Extraction.Guarded

variable {w : Workspace} {glob : String → String → Bool} {t : Tree}

section

variable {path : String} {input : List (String × Value)} {p out q : Path} {archive : Archive}

theorem handleExtract_guarded {tool : String} {openArchive : Path → Except String Archive}
    (hpath : requiredString input "path" = .ok path) (hp : w.resolvePath glob t path = .ok p)
    (hout : resolvedOutput glob t w input p = .ok out) (harchive : openArchive p = .ok archive) :
    ∀ wr ∈ (handleExtract tool openArchive glob t w input).written,
      wr.Guarded t out archive.entries := by
  have hall : (extractAll tool out { tree := t } archive.entries).Guarded t out archive.entries :=
    Extraction.Guarded.extractAll ⟨.refl t, by simp⟩ fun _ he => he
  simp only [handleExtract, hpath, hp, hout, harchive]
  split <;> exact hall.written

/-! ## The output directory -/

/-- An output directory is given; or the archive's path names a file, and not by a link, and this
    file is not itself an allowed path. -/
def OutputChecked (t : Tree) (w : Workspace) (input : List (String × Value)) (p : Path) : Prop :=
  GoStrings.trimSpace (outputDir input) ≠ "" ∨
    ∃ e, entry t osLinks p = .ok e ∧ t.node e = some .file ∧ ∀ r ∈ w.roots, location t r ≠ e

theorem output_inside (hp : w.resolvePath glob t path = .ok p)
    (hout : resolvedOutput glob t w input p = .ok out) (hchecked : OutputChecked t w input p)
    (hq : Leads osLinks t out q) : Inside t w q ∧ ∀ seg ∈ q, IsName seg := by
  unfold resolvedOutput at hout
  split_ifs at hout with hblank
  · cases hout
    obtain ⟨e, he, hfile, hroots⟩ := hchecked.resolve_left (not_not.mpr hblank)
    obtain ⟨hnames, hauth, -⟩ := resolved_cases hp
    rcases eq_nil_or_concat p with rfl | ⟨init, name, rfl⟩
    · simp only [entry, getLast?_nil, Except.ok.injEq] at he
      simp [← he] at hfile
    · rw [concat_eq_append] at he hnames hauth hq
      rw [dropLast_concat] at hq
      obtain ⟨dir, hw, hdir, rfl⟩ := entry_concat.mp he
      obtain ⟨m, -, hm⟩ := walk_append_dir t hw hdir
      have hfound : walk t osLinks [] (init ++ [name]) = .found (dir ++ [name]) := by
        rw [hm, walk_file (hnames name (by simp)) hfile, if_pos rfl]
      rw [leads_unique hq (.inl hw)]
      refine ⟨?_, t.name_of_node (by simp [hdir])⟩
      -- The root that the file is inside of is above it, so its directory is inside too.
      obtain ⟨r, hr, hpre⟩ := (inside_of_authorized hnames hauth (.inl hfound)).1
      exact ⟨r, hr, (prefix_concat_iff.mp hpre).resolve_left (hroots r hr)⟩
  · obtain ⟨hnames, hauth, -⟩ := resolved_cases hout
    exact inside_of_authorized hnames hauth hq

end

/-! ## Accepted files -/

/-- A written file as `resolvePath` should have let it through: inside with all links followed, and
    denied neither by its path nor at its place. -/
structure Written.Accepted (glob : String → String → Bool) (t : Tree) (w : Workspace)
    (wr : Written) : Prop where
  inside : Inside t w wr.place
  path : w.isDeniedPath glob wr.dest = false
  place : w.isDeniedPath glob wr.place = false

/-- Between the output directory and the destination of an entry there is no link, and the file is
    denied neither by its path nor as far below the place of the directory. -/
def EntryChecked (glob : String → String → Bool) (t : Tree) (w : Workspace) (out dest : Path) :
    Prop :=
  ∀ rest q, dest = out ++ rest → Leads osLinks t out q → LinkFree t q rest ∧
    w.isDeniedPath glob dest = false ∧ w.isDeniedPath glob (q ++ rest) = false

theorem append_of_staysBelow {out dest : Path} (h : staysBelow out dest = true) :
    ∃ rest, dest = out ++ rest := by
  simp only [staysBelow, Bool.or_eq_true, Bool.and_eq_true, isPrefixOf_iff_prefix,
    decide_eq_true_eq] at h
  rcases h with ⟨-, rest, rfl⟩ | rfl
  · exact ⟨rest, rfl⟩
  · exact ⟨[], by simp⟩

/-- A workspace `/ws` that denies `.env`, with a link `notes` to it and a link `out` to `/etc`. -/
def deniedTree : Tree where
  entries := [
    (pieces "ws", .dir),
    (pieces "ws/a.zip", .file),
    (pieces "ws/.env", .file),
    (pieces "ws/notes", .link ".env".toList),
    (pieces "ws/out", .link "/etc".toList),
    (pieces "etc", .dir)]
  parents := by decide +kernel
  names := by decide +kernel

def denyingWorkspace : Workspace where
  rootAbs := pieces "ws"
  denyPatterns := [".env"]

/-- `filepath.Match` for patterns without special characters. -/
def literalMatch (pattern name : String) : Bool :=
  pattern = name

/-- An archive of files with the given names. -/
def filesArchive (names : List String) : Path → Except String Archive :=
  fun _ => .ok { entries := names.map fun name => { name, kind := .file } }

end Hopclaw.Tools
