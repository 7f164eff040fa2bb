import Hopclaw.Tools.Workspace

/-! # Where the paths of the file tools lead

A path that `resolvePath` returns leads, with all links followed, into the root or an allowed path.
For `resolvePathNoFollow` this is not so: a path that is below a root by its text is let through
without a look at the links among its directories, and `fs.delete` removes what is behind them. -/

namespace Hopclaw.Tools

open List GoStrings FileTree Workspace

/-! ## Inside the allowed roots -/

/-- The place of an allowed path; one that does not exist stands for itself. -/
def location (t : Tree) (r : Path) : Path :=
  match evalSymlinks t r with
  | .ok realPath => realPath
  | .error _ => r

/-- A place at or below the place of the root or of an allowed path. -/
def Inside (t : Tree) (w : Workspace) (q : Path) : Prop :=
  ∃ r ∈ w.roots, location t r <+: q

variable {t : Tree} {q : Path} {w : Workspace}

theorem Inside.append (h : Inside t w q) (rest : Path) : Inside t w (q ++ rest) := by
  obtain ⟨r, hr, hpre⟩ := h
  exact ⟨r, hr, hpre.trans (prefix_append _ _)⟩

theorem mem_allowedRoots {x : Path} :
    x ∈ w.allowedRoots t ↔ ∃ r ∈ w.roots, x = r ∨ x = location t r := by
  rw [allowedRoots, mem_flatMap]
  refine exists_congr fun r => and_congr_right fun _ => ?_
  rw [location]
  cases evalSymlinks t r with
  | error err => simp
  | ok realPath =>
    by_cases hreal : realPath = r <;> simp [hreal]

theorem withinAllowedRoots_iff : withinAllowedRoots q (w.allowedRoots t) = true ↔
      ∃ r ∈ w.roots, r <+: q ∨ location t r <+: q := by
  simp only [withinAllowedRoots, any_eq_true, isPrefixOf_iff_prefix, mem_allowedRoots]
  constructor
  · rintro ⟨x, ⟨r, hr, rfl | rfl⟩, hpre⟩
    · exact ⟨x, hr, .inl hpre⟩
    · exact ⟨r, hr, .inr hpre⟩
  · rintro ⟨r, hr, hpre | hpre⟩
    · exact ⟨r, ⟨r, hr, .inl rfl⟩, hpre⟩
    · exact ⟨_, ⟨r, hr, .inr rfl⟩, hpre⟩

/-- No link lies on the way to the place, so that a root above it is written as it is found. -/
def Grounded (t : Tree) (q : Path) : Prop :=
  ∀ r, r <+: q → location t r = r

theorem Grounded.within_iff (h : Grounded t q) :
    withinAllowedRoots q (w.allowedRoots t) = true ↔ Inside t w q := by
  rw [withinAllowedRoots_iff]
  constructor
  · rintro ⟨r, hr, hpre | hpre⟩
    · exact ⟨r, hr, (h r hpre).symm ▸ hpre⟩
    · exact ⟨r, hr, hpre⟩
  · rintro ⟨r, hr, hpre⟩
    exact ⟨r, hr, .inr hpre⟩

theorem location_of_found {r : Path} (h : walk t evalLinks [] r = .found q) : location t r = q := by
  simp [location, evalSymlinks, h, WalkResult.toExcept]

theorem location_of_missing {r dir rest : Path} (h : walk t evalLinks [] r = .missing dir rest) :
    location t r = r := by
  simp [location, evalSymlinks, h, WalkResult.toExcept]

theorem grounded_of_node (h : t.node q = some .dir ∨ t.node q = some .file) : Grounded t q := by
  rintro r ⟨rest, rfl⟩
  refine location_of_found (walk_root_real t evalLinks ?_)
  by_cases hrest : rest = []
  · simpa [hrest] using h
  · exact .inl (t.dir_of_append hrest (by rcases h with h | h <;> simp [h]))

/-- Below a directory that has no entry for the first piece there is nothing to follow. -/
theorem grounded_of_missing {dir tail : Path} {seg : Seg} (hdir : t.node dir = some .dir)
    (hseg : IsName seg) (hnone : t.node (dir ++ [seg]) = none) :
    Grounded t (dir ++ seg :: tail) := by
  intro r hr
  rcases prefix_or_prefix_of_prefix hr (prefix_append _ _) with hpre | ⟨rest, rfl⟩
  · exact grounded_of_node (.inl hdir) r hpre
  · cases rest with
    | nil => exact grounded_of_node (.inl hdir) _ (by simp)
    | cons first rest =>
      rw [prefix_append_right_inj, cons_prefix_cons] at hr
      obtain ⟨rfl, -⟩ := hr
      obtain ⟨m, -, hm⟩ := walk_append_dir t (walk_root_real t evalLinks (.inl hdir)) hdir
      exact location_of_missing (by rw [hm, walk_missing hseg hnone])

theorem grounded_of_leads {n : ℕ} {p : Path} (h : Leads n t p q) : Grounded t q := by
  have hsound := walk_sound t n [] p t.node_root
  rcases h with hfound | ⟨dir, rest, hmissing, rfl⟩
  · rw [hfound] at hsound
    exact grounded_of_node hsound
  · rw [hmissing] at hsound
    obtain ⟨hdir, seg, tail, rfl, hseg, hnone⟩ := hsound
    exact grounded_of_missing hdir hseg hnone

/-! ## The checks of a path -/

variable {name : Seg} {d : Path}

section

variable {glob : String → String → Bool} {t : Tree} {w : Workspace} {input : String} {p : Path}

/-- What a returned path has passed. -/
theorem resolved_cases {followLeaf : Bool}
    (h : w.resolvePathWithMode glob t input false followLeaf = .ok p) :
    (∀ seg ∈ p, IsName seg) ∧ w.authorizeAbsolutePath t p followLeaf = .ok () ∧
      w.isDeniedPath glob p = false := by
  simp only [resolvePathWithMode] at h
  generalize hq : w.candidatePath (GoPath.clean (trimSpace input)) = q at h
  split at h
  · cases h
  · split at h
    · simp at h
    · split at h
      · cases h
      · rename_i hauth
        split at h
        · cases h
        · rename_i hdenied
          cases h
          refine ⟨?_, hauth, by simpa using hdenied⟩
          intro seg hseg
          rw [← hq] at hseg
          exact isName_of_mem_cleanSegments hseg

theorem evalSymlinks_eq_ok : evalSymlinks t p = .ok q ↔ walk t evalLinks [] p = .found q := by
  rw [evalSymlinks]
  cases walk t evalLinks [] p <;> simp [WalkResult.toExcept]

/-- `EvalSymlinks` finds what the kernel finds. -/
theorem walk_eval_of_os {o : WalkResult} (h : walk t osLinks [] p = o) (ho : o ≠ .tooManyLinks) :
    walk t evalLinks [] p = o := by
  rw [walk_mono t (by decide) [] p (h.symm ▸ ho), h]

/-- The ways through the check that follows the last piece. -/
theorem authorize_follow_cases (h : w.authorizeAbsolutePath t p true = .ok ()) :
    (∃ q, walk t evalLinks [] p = .found q ∧ withinAllowedRoots q (w.allowedRoots t) = true) ∨
      lstat t osLinks p = .error .notExist ∧
        ∃ d, nearestExistingParentReal t p.dropLast = .ok d ∧
          withinAllowedRoots d (w.allowedRoots t) = true := by
  simp only [authorizeAbsolutePath, Bool.not_true, Bool.and_false, Bool.false_eq_true, if_false,
    if_true] at h
  split at h
  · split at h
    · cases h
    · rename_i q hq
      split at h
      · exact .inl ⟨q, evalSymlinks_eq_ok.mp hq, ‹_›⟩
      · cases h
  · rename_i hmissing
    split at h
    · cases h
    · rename_i d hd
      split at h
      · exact .inr ⟨hmissing, d, hd, ‹_›⟩
      · cases h
  · cases h

/-- A path that ends in a directory the kernel finds, from which the next piece is missing. -/
def StopsAt (t : Tree) (p d : Path) : Prop :=
  ∃ a seg tail, p = a ++ seg :: tail ∧ walk t osLinks [] a = .found d ∧ t.node d = some .dir ∧
    t.node (d ++ [seg]) = none

theorem stopsAt_of_eval (heval : evalSymlinks t p = .ok d)
    (hmiss : lstat t osLinks (p ++ [name]) = .error .notExist) : StopsAt t (p ++ [name]) d := by
  have hd := evalSymlinks_eq_ok.mp heval
  rcases walk_of_lstat_notExist hmiss with ⟨dir, rest, hw⟩ | ⟨dir, hw, hdir, hnone⟩
  · -- A link to nowhere has an entry, but nothing behind it.
    rw [walk_eval_of_os hw (by simp)] at hd
    cases hd
  · rw [walk_eval_of_os hw (by simp)] at hd
    cases hd
    exact ⟨p, name, [], rfl, hw, hdir, hnone⟩

theorem StopsAt.concat (h : StopsAt t p d) (name : Seg) : StopsAt t (p ++ [name]) d := by
  obtain ⟨a, seg, tail, rfl, hrest⟩ := h
  exact ⟨a, seg, tail ++ [name], by simp, hrest⟩

/-- The loop up ends where the path stops. -/
theorem nearestExistingFrom_stopsAt {rev : Path} (h : nearestExistingFrom t rev = .ok d)
    (hmiss : lstat t osLinks (rev.reverse ++ [name]) = .error .notExist) :
    StopsAt t (rev.reverse ++ [name]) d := by
  induction rev generalizing name with
  | nil => exact stopsAt_of_eval h hmiss
  | cons last above ih =>
    rw [nearestExistingFrom] at h
    split at h
    · exact stopsAt_of_eval h hmiss
    · rename_i hlast
      rw [reverse_cons] at hlast ⊢
      exact (ih h hlast).concat name
    · cases h

theorem StopsAt.walk (h : StopsAt t p d) (hnames : ∀ seg ∈ p, IsName seg) :
    ∃ rest, walk t osLinks [] p = .missing d rest ∧ ∀ seg ∈ d ++ rest, IsName seg := by
  obtain ⟨a, seg, tail, rfl, hw, hdir, hnone⟩ := h
  obtain ⟨m, -, hm⟩ := walk_append_dir t hw hdir
  refine ⟨seg :: tail, by rw [hm, walk_missing (hnames seg (by simp)) hnone], fun x hx => ?_⟩
  rcases mem_append.mp hx with hx | hx
  · exact t.name_of_node (by simp [hdir]) x hx
  · exact hnames x (mem_append_right _ hx)

theorem StopsAt.grounded (h : StopsAt t p d) : Grounded t d := by
  obtain ⟨-, -, -, -, -, hdir, -⟩ := h
  exact grounded_of_node (.inl hdir)

theorem exists_concat_of_notExist (h : lstat t osLinks p = .error .notExist) :
    ∃ init name, p = init ++ [name] := by
  rcases eq_nil_or_concat p with rfl | ⟨init, name, rfl⟩
  · simp [lstat, entry] at h
  · exact ⟨init, name, by simp⟩

/-- A path that passes the check leads inside, to a place without dots in its path. -/
theorem inside_of_authorized (hnames : ∀ seg ∈ p, IsName seg)
    (h : w.authorizeAbsolutePath t p true = .ok ()) (hq : Leads osLinks t p q) :
    Inside t w q ∧ ∀ seg ∈ q, IsName seg := by
  rcases authorize_follow_cases h with ⟨r, hr, hwithin⟩ | ⟨hmiss, d, hd, hwithin⟩
  · -- The kernel finds the same place, or the path would be missing there too.
    rcases hq with hfound | ⟨dir, rest, hmissing, -⟩
    · rw [walk_eval_of_os hfound (by simp)] at hr
      cases hr
      have hnode := walk_sound t osLinks [] p t.node_root
      rw [hfound] at hnode
      exact ⟨(grounded_of_leads (.inl hfound)).within_iff.mp hwithin,
        t.name_of_node (by rcases hnode with h | h <;> simp [h])⟩
    · rw [walk_eval_of_os hmissing (by simp)] at hr
      cases hr
  · obtain ⟨init, name, rfl⟩ := exists_concat_of_notExist hmiss
    rw [dropLast_concat] at hd
    have hstops : StopsAt t (init ++ [name]) d := by
      have hstops := nearestExistingFrom_stopsAt hd (by rwa [reverse_reverse])
      rwa [reverse_reverse] at hstops
    have hinside : Inside t w d := hstops.grounded.within_iff.mp hwithin
    obtain ⟨rest, hwalk, hplace⟩ := hstops.walk hnames
    rcases hq with hfound | ⟨dir, rest', hmissing, rfl⟩
    · rw [hwalk] at hfound
      cases hfound
    · rw [hwalk] at hmissing
      cases hmissing
      exact ⟨hinside.append rest, hplace⟩

/-! ## The entry that a path names -/

/-- The check of `resolvePath` made for the directory of the path; the entry of an allowed path
    itself needs none. -/
def ParentChecked (t : Tree) (w : Workspace) (p e : Path) : Prop :=
  w.authorizeAbsolutePath t p.dropLast true = .ok () ∨ ∃ r ∈ w.roots, location t r = e

/-- A path that the kernel finds passes the check if what it finds is inside. -/
theorem authorized_of_inside (hnames : ∀ seg ∈ p, IsName seg)
    (hfound : walk t osLinks [] p = .found q) (hinside : Inside t w q) :
    w.authorizeAbsolutePath t p true = .ok () := by
  have heval : evalSymlinks t p = .ok q := evalSymlinks_eq_ok.mpr (walk_eval_of_os hfound (by simp))
  have hwithin := (grounded_of_leads (.inl hfound)).within_iff.mpr hinside
  obtain ⟨info, hinfo⟩ := lstat_of_found hnames hfound
  simp [authorizeAbsolutePath, hinfo, heval, hwithin]

/-- The entry that a path names is inside exactly if its directory passes the check that the path
    itself is spared. -/
theorem inside_entry_iff (hnames : ∀ seg ∈ p, IsName seg) {e : Path}
    (he : entry t osLinks p = .ok e) : Inside t w e ↔ ParentChecked t w p e := by
  have hparent : ∀ seg ∈ p.dropLast, IsName seg :=
    fun seg hseg => hnames seg (dropLast_subset p hseg)
  obtain ⟨d, hw, hpre⟩ : ∃ d, walk t osLinks [] p.dropLast = .found d ∧
      (e = d ∨ ∃ name, e = d ++ [name]) := by
    rcases eq_nil_or_concat p with rfl | ⟨init, name, rfl⟩
    · simp only [entry, List.getLast?_nil, Except.ok.injEq] at he
      exact ⟨[], by simp, .inl he.symm⟩
    · rw [concat_eq_append] at he ⊢
      obtain ⟨d, hw, -, rfl⟩ := entry_concat.mp he
      exact ⟨d, by rwa [dropLast_concat], .inr ⟨name, rfl⟩⟩
  constructor
  · rintro ⟨r, hr, hloc⟩
    rcases hpre with rfl | ⟨name, rfl⟩
    · exact .inl (authorized_of_inside hparent hw ⟨r, hr, hloc⟩)
    · rcases prefix_concat_iff.mp hloc with heq | hpre
      · exact .inr ⟨r, hr, heq⟩
      · exact .inl (authorized_of_inside hparent hw ⟨r, hr, hpre⟩)
  · rintro (hauth | ⟨r, hr, rfl⟩)
    · have hd := (inside_of_authorized hparent hauth (.inl hw)).1
      rcases hpre with rfl | ⟨name, rfl⟩
      · exact hd
      · exact hd.append [name]
    · exact ⟨r, hr, prefix_refl _⟩

/-! ## What a deletion removes -/

theorem deleteFile_cases {call : List (String × Value)} {t' : Tree}
    (h : w.deleteFile glob t call = .ok t') :
    ∃ pathValue p e, requiredString call "path" = .ok pathValue ∧
      w.resolvePathNoFollow glob t pathValue = .ok p ∧ entry t osLinks p = .ok e ∧
      t.node e ≠ none ∧ t' = t.remove e := by
  rw [deleteFile] at h
  cases hpath : requiredString call "path" with
  | error err => simp [hpath, bind, Except.bind] at h
  | ok pathValue =>
    cases hflag : boolFrom (Value.index call "recursive") with
    | error err => simp [hpath, hflag, bind, Except.bind, Except.mapError] at h
    | ok recursive =>
      cases hp : w.resolvePathNoFollow glob t pathValue with
      | error err => simp [hpath, hflag, hp, bind, Except.bind, Except.mapError] at h
      | ok p =>
        simp only [hpath, hflag, hp, bind, Except.bind, Except.mapError] at h
        split at h
        · simp [osFailure, failure] at h
        · rename_i e he
          split at h
          · simp [osFailure, failure] at h
          · rename_i info hinfo
            split at h
            · simp [osFailure, failure] at h
            · cases h
              exact ⟨pathValue, p, e, rfl, hp, he, by simp [hinfo], rfl⟩

/-- The root of the tree is only let through where it is allowed. -/
theorem inside_root_of_authorized (h : w.authorizeAbsolutePath t [] false = .ok ()) :
    Inside t w [] := by
  refine (grounded_of_node (.inl t.node_root)).within_iff.mp ?_
  by_contra hout
  simp [authorizeAbsolutePath, hout, lstat, entry] at h

/-- A deletion removes only what is inside exactly if the entry is inside. -/
theorem removed_inside_iff {e : Path} (hnode : t.node e ≠ none) (hroot : e = [] → Inside t w []) :
    (∀ q, t.node q ≠ none → (t.remove e).node q = none → Inside t w q) ↔ Inside t w e := by
  constructor
  · intro h
    by_cases he : e = []
    · exact he ▸ hroot he
    · exact h e hnode (t.node_remove_of_prefix he (prefix_refl e))
  · intro h q hq hgone
    have hpre : e <+: q := by
      by_contra hout
      rw [t.node_remove_of_not_prefix hout] at hgone
      exact hq hgone
    obtain ⟨rest, rfl⟩ := hpre
    exact h.append rest

theorem eq_nil_of_entry (h : entry t osLinks p = .ok []) : p = [] := by
  rcases eq_nil_or_concat p with rfl | ⟨init, name, rfl⟩
  · rfl
  · rw [concat_eq_append] at h
    obtain ⟨d, -, -, hd⟩ := entry_concat.mp h
    simp at hd

end

/-- A path that `resolvePath` returns leads inside. The entry of a path that `resolvePathNoFollow`
    returns is inside, and `fs.delete` of it removes only what is inside, exactly if the directory
    of the path passes the check of `resolvePath` or the entry is that of an allowed path. -/
theorem paths_confined_iff_parents_checked (glob : String → String → Bool) (t : Tree)
    (w : Workspace) :
    (∀ input p q, w.resolvePath glob t input = .ok p → Leads osLinks t p q → Inside t w q) ∧
    (∀ input p e, w.resolvePathNoFollow glob t input = .ok p → entry t osLinks p = .ok e →
      (Inside t w e ↔ ParentChecked t w p e)) ∧
    ∀ call t', w.deleteFile glob t call = .ok t' →
      ∃ input p e, requiredString call "path" = .ok input ∧
        w.resolvePathNoFollow glob t input = .ok p ∧ entry t osLinks p = .ok e ∧
        ((∀ q, t.node q ≠ none → t'.node q = none → Inside t w q) ↔ ParentChecked t w p e) := by
  refine ⟨?_, ?_, ?_⟩
  · intro input p q h hq
    obtain ⟨hnames, hauth, -⟩ := resolved_cases h
    exact (inside_of_authorized hnames hauth hq).1
  · intro input p e h he
    exact inside_entry_iff (resolved_cases h).1 he
  · intro call t' h
    obtain ⟨input, p, e, hinput, hp, he, hnode, rfl⟩ := deleteFile_cases h
    obtain ⟨hnames, hauth, -⟩ := resolved_cases hp
    refine ⟨input, p, e, hinput, hp, he, ?_⟩
    rw [← inside_entry_iff hnames he]
    refine removed_inside_iff hnode ?_
    rintro rfl
    rw [eq_nil_of_entry he] at hauth
    exact inside_root_of_authorized hauth

instance (t : Tree) (w : Workspace) (q : Path) : Decidable (Inside t w q) :=
  inferInstanceAs (Decidable (∃ r ∈ w.roots, location t r <+: q))

/-- A workspace `/ws` with a file and a link `out` to `/etc`. -/
def linkedTree : Tree where
  entries := [
    (pieces "ws", .dir),
    (pieces "ws/notes", .file),
    (pieces "ws/out", .link "/etc".toList),
    (pieces "etc", .dir),
    (pieces "etc/passwd", .file)]
  parents := by decide +kernel
  names := by decide +kernel

def plainWorkspace : Workspace where
  rootAbs := pieces "ws"

/-- In the same tree, a path without links on its way is resolved to a file inside, and its entry
    passes the check. -/
theorem plain_paths_are_confined :
    Inside linkedTree plainWorkspace (pieces "ws/notes") ∧
      ParentChecked linkedTree plainWorkspace (pieces "ws/notes") (pieces "ws/notes") := by
  obtain ⟨hfollow, hentry, -⟩ :=
    paths_confined_iff_parents_checked (fun _ _ => false) linkedTree plainWorkspace
  have hinside : Inside linkedTree plainWorkspace (pieces "ws/notes") :=
    hfollow "notes" (pieces "ws/notes") _ (by decide +kernel) (.inl (by decide +kernel))
  exact ⟨hinside, (hentry "notes" _ _ (by decide +kernel) (by decide +kernel)).mp hinside⟩

/-- `fs.delete` of `out/passwd` removes a file that is not in the workspace. -/
theorem delete_through_link_escapes :
    linkedTree.node (pieces "etc/passwd") = some .file ∧
      ((plainWorkspace.deleteFile (fun _ _ => false) linkedTree
        [("path", .str "out/passwd")]).toOption.map fun t' => t'.node (pieces "etc/passwd")) =
          some none ∧
      ¬ Inside linkedTree plainWorkspace (pieces "etc/passwd") := by
  decide +kernel

end Hopclaw.Tools
