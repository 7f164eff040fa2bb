import Hopclaw.Text.GoPath

/-! # File system trees with symbolic links

A tree maps real paths, those that go through directories only, to directories, files and links.
`walk` is the path resolution of an operating system: it follows links, the last one included, up
to a limit, and says where it ended or why it could not go on. -/

namespace FileTree

open List GoPath FileTree

/-- A piece of a path between slashes. -/
abbrev Seg := List Char

/-- An absolute path. -/
abbrev Path := List Seg

/-- A piece that names an entry of a directory. -/
def IsName (seg : Seg) : Prop :=
  seg ≠ [] ∧ seg ≠ ['.'] ∧ seg ≠ ['.', '.']

instance (seg : Seg) : Decidable (IsName seg) :=
  inferInstanceAs (Decidable (_ ∧ _))

inductive Node
  | dir
  | file
  | link (target : List Char)
  deriving DecidableEq

/-- The node of a path in a list of entries; the root is a directory and has no entry. -/
def nodeIn (entries : List (Path × Node)) (p : Path) : Option Node :=
  if p = [] then some .dir else (entries.find? fun e => e.1 = p).map Prod.snd

structure Tree where
  entries : List (Path × Node)
  parents : ∀ e ∈ entries, nodeIn entries e.1.dropLast = some .dir
  names : ∀ e ∈ entries, ∀ seg ∈ e.1, IsName seg

variable {p : Path}

namespace Tree

variable (t : Tree)

def node (p : Path) : Option Node :=
  nodeIn t.entries p

@[simp] theorem node_root : t.node [] = some .dir := by
  simp [node, nodeIn]

theorem mem_of_node {n : Node} (hp : p ≠ []) (h : t.node p = some n) :
    ∃ e ∈ t.entries, e.1 = p := by
  rw [node, nodeIn, if_neg hp, Option.map_eq_some_iff] at h
  obtain ⟨e, he, -⟩ := h
  exact ⟨e, mem_of_find?_eq_some he, by simpa using List.find?_some he⟩

theorem parent_dir {c : Seg} (h : t.node (p ++ [c]) ≠ none) : t.node p = some .dir := by
  obtain ⟨n, hn⟩ := Option.ne_none_iff_exists'.mp h
  obtain ⟨e, he, hep⟩ := t.mem_of_node (by simp) hn
  have hdir := t.parents e he
  rwa [hep, dropLast_concat] at hdir

theorem name_of_node (h : t.node p ≠ none) : ∀ seg ∈ p, IsName seg := by
  by_cases hp : p = []
  · simp [hp]
  · obtain ⟨n, hn⟩ := Option.ne_none_iff_exists'.mp h
    obtain ⟨e, he, rfl⟩ := t.mem_of_node hp hn
    exact t.names e he

/-- Above an entry there are directories only. -/
theorem dir_of_append {q : Path} (hq : q ≠ []) (h : t.node (p ++ q) ≠ none) :
    t.node p = some .dir := by
  induction q using List.reverseRecOn with
  | nil => exact absurd rfl hq
  | append_singleton q c ih =>
    rw [← append_assoc] at h
    have hdir := t.parent_dir h
    by_cases hq' : q = []
    · simpa [hq'] using hdir
    · exact ih hq' (by simp [hdir])

theorem dir_dropLast (h : t.node p = some .dir) : t.node p.dropLast = some .dir := by
  by_cases hp : p = []
  · simp [hp]
  · refine t.parent_dir (c := p.getLast hp) ?_
    rw [dropLast_append_getLast hp, h]
    simp

end Tree

/-! ## Resolution -/

inductive WalkResult
  /-- The real path of a directory or file. -/
  | found (p : Path)
  /-- A directory without an entry for the first of the remaining pieces. -/
  | missing (dir rest : Path)
  | notDir
  | tooManyLinks
  deriving DecidableEq

/-- Resolution from a directory; what to do at a link is an argument. -/
def walkFrom (t : Tree) (jump : Path → Path → WalkResult) (here : Path) : Path → WalkResult
  | [] => .found here
  | seg :: rest =>
    if seg = ['.', '.'] then walkFrom t jump here.dropLast rest
    else if ¬ IsName seg then walkFrom t jump here rest
    else
      match t.node (here ++ [seg]) with
      | none => .missing here (seg :: rest)
      | some .dir => walkFrom t jump (here ++ [seg]) rest
      | some .file => if rest = [] then .found (here ++ [seg]) else .notDir
      | some (.link target) =>
        jump (if target.head? = some '/' then [] else here) (GoPath.splitOn '/' target ++ rest)

/-- Resolution of a path from a directory, with at most the given number of links. -/
def walk (t : Tree) : ℕ → Path → Path → WalkResult
  | 0 => walkFrom t fun _ _ => .tooManyLinks
  | n + 1 => walkFrom t (walk t n)

variable {n : ℕ}

variable {m : ℕ} {name : Seg} {here next more : Path}

section

variable (t : Tree)

@[simp] theorem walk_nil (n : ℕ) (here : Path) : walk t n here [] = .found here := by
  cases n <;> rfl

theorem IsName.ne_up {seg : Seg} (h : IsName seg) : seg ≠ ['.', '.'] :=
  h.2.2

/-- A piece after which the resolution goes on: the links left before and after it, the directory
    reached, and the pieces of a link's target that come before the rest. -/
inductive Goes (here : Path) (seg : Seg) : ℕ → ℕ → Path → Path → Prop
  | up (n : ℕ) : seg = ['.', '.'] → Goes here seg n n here.dropLast []
  | skip (n : ℕ) : seg ≠ ['.', '.'] → ¬ IsName seg → Goes here seg n n here []
  | dir (n : ℕ) : IsName seg → t.node (here ++ [seg]) = some .dir →
      Goes here seg n n (here ++ [seg]) []
  | link (n : ℕ) (target : List Char) : IsName seg →
      t.node (here ++ [seg]) = some (.link target) →
      Goes here seg (n + 1) n (if target.head? = some '/' then [] else here)
        (GoPath.splitOn '/' target)

section

variable {t} {seg : Seg} {here : Path}

section

variable (h : Goes t here seg n m next more)
include h

theorem Goes.walk (rest : Path) : walk t n here (seg :: rest) = walk t m next (more ++ rest) := by
  cases h with
  | up n hup => cases n <;> simp [walk, walkFrom, hup]
  | skip n hup hseg => cases n <;> simp [walk, walkFrom, hup, hseg]
  | dir n hseg hnode => cases n <;> simp [walk, walkFrom, hseg, hseg.ne_up, hnode]
  | link n target hseg hnode => simp [walk, walkFrom, hseg, hseg.ne_up, hnode]

theorem Goes.le : m ≤ n := by
  cases h <;> omega

/-- With more links it goes on in the same way. -/
theorem Goes.add (k : ℕ) : Goes t here seg (n + k) (m + k) next more := by
  cases h with
  | up n hup => exact .up _ hup
  | skip n hup hseg => exact .skip _ hup hseg
  | dir n hseg hnode => exact .dir _ hseg hnode
  | link n target hseg hnode =>
    rw [Nat.add_right_comm]
    exact .link _ target hseg hnode

theorem Goes.next_dir (hhere : t.node here = some .dir) : t.node next = some .dir := by
  cases h with
  | up => exact t.dir_dropLast hhere
  | skip => exact hhere
  | dir _ _ hnode => exact hnode
  | link =>
    split
    · exact t.node_root
    · exact hhere

end

variable (hseg : IsName seg)

include hseg

theorem walk_missing (h : t.node (here ++ [seg]) = none) (n : ℕ) (rest : Path) :
    walk t n here (seg :: rest) = .missing here (seg :: rest) := by
  cases n <;> simp [walk, walkFrom, hseg, hseg.ne_up, h]

theorem walk_dir (h : t.node (here ++ [seg]) = some .dir) (n : ℕ) (rest : Path) :
    walk t n here (seg :: rest) = walk t n (here ++ [seg]) rest :=
  (Goes.dir n hseg h).walk rest

theorem walk_file (h : t.node (here ++ [seg]) = some .file) (n : ℕ) (rest : Path) :
    walk t n here (seg :: rest) = if rest = [] then .found (here ++ [seg]) else .notDir := by
  cases n <;> simp [walk, walkFrom, hseg, hseg.ne_up, h]

theorem walk_link_zero {target : List Char} (h : t.node (here ++ [seg]) = some (.link target))
    (rest : Path) : walk t 0 here (seg :: rest) = .tooManyLinks := by
  simp [walk, walkFrom, hseg, hseg.ne_up, h]

end

/-- Induction along a resolution: it is through, it goes on at the next piece, or it ends there. -/
theorem walk_induction {motive : ℕ → Path → Path → Prop}
    (nil : ∀ n here, motive n here [])
    (goes : ∀ n m here seg next more rest, Goes t here seg n m next more →
      motive m next (more ++ rest) → motive n here (seg :: rest))
    (missing : ∀ n here seg rest, IsName seg → t.node (here ++ [seg]) = none →
      motive n here (seg :: rest))
    (file : ∀ n here seg rest, IsName seg → t.node (here ++ [seg]) = some .file →
      motive n here (seg :: rest))
    (linkZero : ∀ here seg rest target, IsName seg → t.node (here ++ [seg]) = some (.link target) →
      motive 0 here (seg :: rest))
    (n : ℕ) (here p : Path) : motive n here p := by
  -- The pieces get fewer, but at a link, where the links left do.
  induction n using Nat.strong_induction_on generalizing here p with
  | _ n ihn =>
    induction p generalizing here with
    | nil => exact nil n here
    | cons seg rest ih =>
      by_cases hup : seg = ['.', '.']
      · exact goes _ _ _ _ _ _ _ (.up n hup) (ih _)
      · by_cases hseg : IsName seg
        · match hn : t.node (here ++ [seg]) with
          | none => exact missing n here seg rest hseg hn
          | some .dir => exact goes _ _ _ _ _ _ _ (.dir n hseg hn) (ih _)
          | some .file => exact file n here seg rest hseg hn
          | some (.link target) =>
            cases n with
            | zero => exact linkZero here seg rest target hseg hn
            | succ n => exact goes _ _ _ _ _ _ _ (.link n target hseg hn) (ihn n (by omega) _ _)
        · exact goes _ _ _ _ _ _ _ (.skip n hup hseg) (ih _)

/-! ## What a resolution ends with -/

/-- What an outcome says about the tree. -/
def WalkResult.Sound : WalkResult → Prop
  | .found p => t.node p = some .dir ∨ t.node p = some .file
  | .missing dir rest => t.node dir = some .dir ∧
      ∃ seg tail, rest = seg :: tail ∧ IsName seg ∧ t.node (dir ++ [seg]) = none
  | .notDir => True
  | .tooManyLinks => True

theorem walk_sound (n : ℕ) (here p : Path) (h : t.node here = some .dir) :
    (walk t n here p).Sound t := by
  induction n, here, p using walk_induction t with
  | nil n here => simp [WalkResult.Sound, h]
  | goes n m here seg next more rest hgo ih =>
    rw [hgo.walk]
    exact ih (hgo.next_dir h)
  | missing n here seg rest hseg hnode =>
    rw [walk_missing hseg hnode]
    exact ⟨h, seg, rest, rfl, hseg, hnode⟩
  | file n here seg rest hseg hnode =>
    rw [walk_file hseg hnode]
    split
    · exact .inr hnode
    · trivial
  | linkZero here seg rest target hseg hnode =>
    rw [walk_link_zero hseg hnode]
    trivial

/-- A higher limit changes nothing where the lower one was enough. -/
theorem walk_mono (hnm : n ≤ m) (here p : Path) (h : walk t n here p ≠ .tooManyLinks) :
    walk t m here p = walk t n here p := by
  obtain ⟨k, rfl⟩ := Nat.exists_eq_add_of_le hnm
  clear hnm
  induction n, here, p using walk_induction t with
  | nil n here => simp
  | goes n m here seg next more rest hgo ih =>
    rw [hgo.walk] at h ⊢
    rw [(hgo.add k).walk, ih h]
  | missing n here seg rest hseg hnode => rw [walk_missing hseg hnode, walk_missing hseg hnode]
  | file n here seg rest hseg hnode => rw [walk_file hseg hnode, walk_file hseg hnode]
  | linkZero here seg rest target hseg hnode => exact absurd (walk_link_zero hseg hnode rest) h

/-- A path that goes on at a directory is resolved from there, with the links that are left. -/
theorem walk_append_dir {dir : Path} (h : walk t n here p = .found dir)
    (hdir : t.node dir = some .dir) : ∃ m ≤ n, ∀ q, walk t n here (p ++ q) = walk t m dir q := by
  induction n, here, p using walk_induction t with
  | nil n here =>
    rw [walk_nil] at h
    cases h
    exact ⟨n, le_rfl, fun q => rfl⟩
  | goes n m here seg next more tail hgo ih =>
    rw [hgo.walk] at h
    obtain ⟨k, hk, hq⟩ := ih h
    refine ⟨k, hk.trans hgo.le, ?_⟩
    intro q
    rw [cons_append, hgo.walk, ← append_assoc, hq]
  | missing n here seg tail hseg hnode =>
    rw [walk_missing hseg hnode] at h
    cases h
  | file n here seg tail hseg hnode =>
    rw [walk_file hseg hnode] at h
    split at h
    · cases h
      rw [hnode] at hdir
      cases hdir
    · cases h
  | linkZero here seg tail target hseg hnode =>
    rw [walk_link_zero hseg hnode] at h
    cases h

/-- A path that leads somewhere goes through a directory at each of its pieces. -/
theorem dir_of_walk_append {q r : Path} (hhere : t.node here = some .dir) (hq : q ≠ [])
    (h : walk t n here (p ++ q) = .found r) :
    ∃ dir, walk t n here p = .found dir ∧ t.node dir = some .dir := by
  induction n, here, p using walk_induction t with
  | nil n here => exact ⟨here, walk_nil t n here, hhere⟩
  | goes n m here seg next more rest hgo ih =>
    rw [cons_append, hgo.walk, ← append_assoc] at h
    rw [hgo.walk]
    exact ih (hgo.next_dir hhere) h
  | missing n here seg rest hseg hnode =>
    rw [cons_append, walk_missing hseg hnode] at h
    cases h
  | file n here seg rest hseg hnode =>
    rw [cons_append, walk_file hseg hnode, if_neg (by simp [hq])] at h
    cases h
  | linkZero here seg rest target hseg hnode =>
    rw [cons_append, walk_link_zero hseg hnode] at h
    cases h

/-- The real path of a directory or file leads to itself. -/
theorem walk_real (n : ℕ) (h : t.node (here ++ p) = some .dir ∨ t.node (here ++ p) = some .file) :
    walk t n here p = .found (here ++ p) := by
  induction p generalizing here with
  | nil => simp
  | cons seg rest ih =>
    have hsome : t.node (here ++ seg :: rest) ≠ none := by
      rcases h with h | h <;> simp [h]
    have hseg : IsName seg := t.name_of_node hsome seg (by simp)
    rw [append_cons] at h hsome ⊢
    by_cases hrest : rest = []
    · subst hrest
      rw [append_nil] at h ⊢
      rcases h with h | h
      · rw [walk_dir hseg h, walk_nil]
      · rw [walk_file hseg h, if_pos rfl]
    · rw [walk_dir hseg (t.dir_of_append hrest hsome), ih h]

theorem walk_root_real (n : ℕ) (h : t.node p = some .dir ∨ t.node p = some .file) :
    walk t n [] p = .found p := by
  have hp := walk_real t n (by rwa [nil_append] : t.node ([] ++ p) = _ ∨ t.node ([] ++ p) = _)
  rwa [nil_append] at hp

/-! ## Directory entries -/

/-- The errors of the operating system that are told apart. -/
inductive Errno
  | notExist
  | exist
  | notDir
  | isDir
  | notEmpty
  | tooManyLinks
  deriving DecidableEq

def WalkResult.toExcept : WalkResult → Except Errno Path
  | .found p => .ok p
  | .missing _ _ => .error .notExist
  | .notDir => .error .notDir
  | .tooManyLinks => .error .tooManyLinks

/-- The entry that a path names: its directory is resolved, its last piece is not. -/
def entry (n : ℕ) (p : Path) : Except Errno Path :=
  match p.getLast? with
  | none => .ok []
  | some name =>
    match walk t n [] p.dropLast with
    | .found dir => if t.node dir = some .dir then .ok (dir ++ [name]) else .error .notDir
    | other => other.toExcept

def lstat (n : ℕ) (p : Path) : Except Errno Node :=
  match entry t n p with
  | .error err => .error err
  | .ok e =>
    match t.node e with
    | none => .error .notExist
    | some node => .ok node

variable {t}

theorem entry_concat {e : Path} : entry t n (p ++ [name]) = .ok e ↔
      ∃ dir, walk t n [] p = .found dir ∧ t.node dir = some .dir ∧ e = dir ++ [name] := by
  simp only [entry, dropLast_concat]
  cases walk t n [] p with
  | found dir =>
    by_cases h : t.node dir = some .dir
    · simp [h, eq_comm]
    · simp [h]
  | missing dir rest => simp [WalkResult.toExcept]
  | notDir => simp [WalkResult.toExcept]
  | tooManyLinks => simp [WalkResult.toExcept]

/-- A path without an entry ends in a directory that the system finds, or in a part of the path
    that is missing before. -/
theorem walk_of_lstat_notExist (h : lstat t n (p ++ [name]) = .error .notExist) :
    (∃ dir rest, walk t n [] p = .missing dir rest) ∨
      ∃ dir, walk t n [] p = .found dir ∧ t.node dir = some .dir ∧
        t.node (dir ++ [name]) = none := by
  simp only [lstat, entry, dropLast_concat] at h
  cases hw : walk t n [] p with
  | found dir =>
    by_cases hd : t.node dir = some .dir
    · cases hn : t.node (dir ++ [name]) with
      | none => exact .inr ⟨dir, rfl, hd, hn⟩
      | some node => simp [hw, hd, hn] at h
    · simp [hw, hd] at h
  | missing dir rest => exact .inl ⟨dir, rest, rfl⟩
  | notDir => simp [hw, WalkResult.toExcept] at h
  | tooManyLinks => simp [hw, WalkResult.toExcept] at h

/-- A path that leads somewhere has an entry. -/
theorem lstat_of_found {q : Path} (hnames : ∀ seg ∈ p, IsName seg) (h : walk t n [] p = .found q) :
    ∃ node, lstat t n p = .ok node := by
  rcases eq_nil_or_concat p with rfl | ⟨init, name, rfl⟩
  · exact ⟨.dir, by simp [lstat, entry]⟩
  · rw [concat_eq_append] at hnames h ⊢
    obtain ⟨dir, hw, hdir⟩ := dir_of_walk_append t t.node_root (by simp) h
    cases hnode : t.node (dir ++ [name]) with
    | some node => exact ⟨node, by simp [lstat, entry_concat.mpr ⟨dir, hw, hdir, rfl⟩, hnode]⟩
    | none =>
      obtain ⟨m, -, hm⟩ := walk_append_dir t hw hdir
      rw [hm, walk_missing (hnames name (by simp)) hnode] at h
      cases h

/-! ## Clean paths -/

theorem isName_pushSegment {kept : List Seg} (hkept : ∀ s ∈ kept, IsName s) (seg : Seg) :
    ∀ s ∈ pushSegment true kept seg, IsName s := by
  by_cases hskip : seg = [] ∨ seg = ['.']
  · simpa [pushSegment, hskip] using hkept
  · by_cases hup : seg = ['.', '.']
    · cases kept with
      | nil => simp [pushSegment, hup]
      | cons top rest =>
        have htop : top ≠ ['.', '.'] := (hkept top (by simp)).ne_up
        simpa [pushSegment, hup, htop] using fun s hs => hkept s (by simp [hs])
    · have hname : IsName seg := ⟨fun h => hskip (.inl h), fun h => hskip (.inr h), hup⟩
      intro s hs
      simp only [pushSegment, Bool.or_eq_true, decide_eq_true_eq, hskip, hup] at hs
      rcases mem_cons.mp hs with rfl | hs
      · exact hname
      · exact hkept s hs

theorem isName_of_mem_cleanSegments {segs : List Seg} {seg : Seg}
    (h : seg ∈ cleanSegments true segs) : IsName seg := by
  have hfold : ∀ (segs kept : List Seg), (∀ s ∈ kept, IsName s) →
      ∀ s ∈ segs.foldl (pushSegment true) kept, IsName s := by
    intro segs
    induction segs with
    | nil => exact fun kept hkept => hkept
    | cons first rest ih => exact fun kept hkept => ih _ (isName_pushSegment hkept first)
  exact hfold segs [] (by simp) seg (by simpa [cleanSegments] using h)

end

end FileTree
