import Hopclaw.Domain.Maps

/-! # A directory of files that are open

A directory gives names to files, and a file that is open stays what it is when its name moves on
to another one. Files are lists of entries; writing appends, as with a handle opened for
appending. -/

namespace Inodes

open Option Maps

/-- Every name has its own file, and files are numbered in the order of their creation. -/
structure Dir (N L : Type) [DecidableEq N] where
  created : ℕ := 0
  content : ℕ → List L := fun _ => []
  names : AList (fun _ : N => ℕ) := ∅
  issued : ∀ {name file}, names.lookup name = some file → file < created := by simp
  distinct : ∀ {name name' file}, names.lookup name = some file → names.lookup name' = some file →
    name = name' := by simp
  vacant : ∀ {file}, created ≤ file → content file = [] := by simp

namespace Dir

variable {N L : Type} [DecidableEq N] (d : Dir N L)

/-- What is read under a name. -/
def read (name : N) : Option (List L) :=
  (d.names.lookup name).map d.content

/-- A name for a new, empty file. -/
def create (name : N) : Dir N L where
  created := d.created + 1
  content := d.content
  names := d.names.insert name d.created
  issued := forall_insert (fun h => Nat.lt_succ_of_lt (d.issued h)) (Nat.lt_succ_self _)
  distinct := distinct_insert d.distinct fun h => lt_irrefl _ (d.issued h)
  vacant := fun h => d.vacant (Nat.le_of_succ_le h)

/-- Replace what is in a file; a handle to a file that was never created does not exist. -/
def setContent (file : ℕ) (lines : List L) : Dir N L where
  created := d.created
  content := fun f => if f = file ∧ file < d.created then lines else d.content f
  names := d.names
  issued := d.issued
  distinct := d.distinct
  vacant := by
    intro f h
    rw [if_neg fun hf => by omega]
    exact d.vacant h

/-- Open a file for appending; it is created if the name is not in use. -/
def openFile (name : N) : ℕ × Dir N L :=
  match d.names.lookup name with
  | some file => (file, d)
  | none => (d.created, d.create name)

def append (file : ℕ) (line : L) : Dir N L :=
  d.setContent file (d.content file ++ [line])

/-- Write a whole file, which is created, or emptied first. -/
def writeFile (name : N) (lines : List L) : Dir N L :=
  (d.openFile name).2.setContent (d.openFile name).1 lines

/-- Move a name onto another one, whose file loses its name. -/
def rename (src dst : N) : Option (Dir N L) :=
  match h : d.names.lookup src with
  | none => none
  | some file => some
    { created := d.created
      content := d.content
      names := if src = dst then d.names else (d.names.erase src).insert dst file
      issued := by
        split_ifs
        · exact d.issued
        · exact forall_insert (fun hf => d.issued (lookup_of_erase hf).2) (d.issued h)
      distinct := by
        split_ifs
        · exact d.distinct
        · -- without its old name the file has none
          refine distinct_insert (fun h₁ h₂ => d.distinct (lookup_of_erase h₁).2
            (lookup_of_erase h₂).2) fun hf => ?_
          obtain ⟨hne, hf⟩ := lookup_of_erase hf
          exact hne (d.distinct hf h)
      vacant := d.vacant }

/-! ## What is read afterwards -/

variable {d}

theorem read_create {name : N} (name' : N) :
    (d.create name).read name' = if name' = name then some [] else d.read name' := by
  unfold read create
  rw [lookup_insert_if]
  split_ifs
  · rw [map_some, d.vacant le_rfl]
  · rfl

theorem read_setContent {name : N} {file : ℕ} (h : d.names.lookup name = some file)
    (lines : List L) (name' : N) :
    (d.setContent file lines).read name' = if name' = name then some lines else d.read name' := by
  have hlt := d.issued h
  unfold read setContent
  split_ifs with hname
  · subst hname
    simp [h, hlt]
  · cases hl : d.names.lookup name' with
    | none => simp
    | some file' =>
      have hne : file' ≠ file := by
        rintro rfl
        exact hname (d.distinct hl h)
      simp [hne]

theorem openFile_of_read {name : N} {lines : List L} (h : d.read name = some lines) :
    (d.openFile name).2 = d := by
  rw [read, map_eq_some_iff] at h
  obtain ⟨file, hfile, -⟩ := h
  simp [openFile, hfile]

theorem openFile_of_none {name : N} (h : d.read name = none) :
    (d.openFile name).2 = d.create name := by
  rw [read, map_eq_none_iff] at h
  simp [openFile, h]

/-- The handle is one to the file the name has. -/
theorem openFile_lookup (name : N) :
    (d.openFile name).2.names.lookup name = some (d.openFile name).1 := by
  unfold openFile
  cases h : d.names.lookup name with
  | none => exact AList.lookup_insert _
  | some file => exact h

theorem read_openFile (name name' : N) :
    (d.openFile name).2.read name' =
      if name' = name then some ((d.read name).getD []) else d.read name' := by
  cases h : d.read name with
  | none => rw [openFile_of_none h, read_create, getD_none]
  | some lines =>
    rw [openFile_of_read h, getD_some]
    split_ifs with hname
    · rw [hname, h]
    · rfl

theorem content_of_lookup {name : N} {file : ℕ} (h : d.names.lookup name = some file) :
    d.read name = some (d.content file) := by
  rw [read, h, map_some]

theorem read_append {name : N} {file : ℕ} (h : d.names.lookup name = some file) (line : L)
    (name' : N) : (d.append file line).read name' =
      if name' = name then some ((d.read name).getD [] ++ [line]) else d.read name' := by
  rw [append, read_setContent h, content_of_lookup h, getD_some]

theorem read_writeFile (name : N) (lines : List L) (name' : N) :
    (d.writeFile name lines).read name' = if name' = name then some lines else d.read name' := by
  rw [writeFile, read_setContent (openFile_lookup name), read_openFile]
  split_ifs <;> rfl

theorem rename_isSome {src : N} (dst : N) {lines : List L} (h : d.read src = some lines) :
    ∃ d', d.rename src dst = some d' := by
  rw [read, map_eq_some_iff] at h
  obtain ⟨file, hfile, -⟩ := h
  unfold rename
  split
  · next hnone => rw [hfile] at hnone; cases hnone
  · exact ⟨_, rfl⟩

theorem read_rename {src dst : N} (hne : src ≠ dst) {d' : Dir N L} (h : d.rename src dst = some d')
    (name : N) : d'.read name =
      if name = dst then d.read src else if name = src then none else d.read name := by
  unfold rename at h
  split at h
  · cases h
  · next file hfile =>
    obtain rfl := some.inj h
    change Option.map d.content (AList.lookup name
      (if src = dst then d.names else (d.names.erase src).insert dst file)) = _
    unfold read
    rw [if_neg hne, lookup_insert_if, lookup_erase_if, hfile]
    split_ifs <;> rfl

end Dir

end Inodes
