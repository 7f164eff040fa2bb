import Hopclaw.FileTree.Walk

/-! # Changing a tree

Removing what is at and below an entry, and making directories and files. Every change keeps the
invariants of a tree, and what is made is never a link, so that resolution finds afterwards what it
found before. -/

namespace FileTree

open List

variable {p : Path}

variable {q : Path} {entries : List (Path × Node)}

namespace Tree

variable (t : Tree)

/-! ## Removing -/

theorem nodeIn_filter (keep : Path → Bool) (hp : p ≠ []) (hkeep : keep p = true) :
    nodeIn (entries.filter fun e => keep e.1) p = nodeIn entries p := by
  rw [nodeIn, nodeIn, if_neg hp, if_neg hp, List.find?_filter]
  congr 2
  funext e
  by_cases he : e.1 = p <;> simp [he, hkeep]

/-- Without the entries at and below a path. -/
def remove (top : Path) : Tree where
  entries := t.entries.filter fun e => !top.isPrefixOf e.1
  parents := by
    intro e he
    obtain ⟨hmem, hout⟩ := mem_filter.mp he
    have hdir := t.parents e hmem
    by_cases hroot : e.1.dropLast = []
    · simp [hroot, nodeIn]
    · rw [nodeIn_filter (fun p => !top.isPrefixOf p) hroot, hdir]
      -- A prefix of the directory would be one of the entry.
      rw [Bool.not_eq_true', ← Bool.not_eq_true, isPrefixOf_iff_prefix] at hout ⊢
      exact fun h => hout (h.trans ( dropLast_prefix _))
  names := by
    intro e he
    exact t.names e (mem_filter.mp he).1

theorem node_remove_of_prefix {top : Path} (hp : p ≠ []) (h : top <+: p) :
    (t.remove top).node p = none := by
  by_contra hsome
  obtain ⟨n, hn⟩ := Option.ne_none_iff_exists'.mp hsome
  obtain ⟨e, he, rfl⟩ := (t.remove top).mem_of_node hp hn
  simp [remove, isPrefixOf_iff_prefix.mpr h] at he

theorem node_remove_of_not_prefix {top : Path} (h : ¬ top <+: p) :
    (t.remove top).node p = t.node p := by
  by_cases hp : p = []
  · simp [hp]
  · refine nodeIn_filter (fun p => !top.isPrefixOf p) hp ?_
    simpa [← Bool.not_eq_true] using h

/-! ## Adding -/

/-- A place for a new entry. -/
structure Vacant (p : Path) : Prop where
  fresh : t.node p = none
  dir : t.node p.dropLast = some .dir
  name : ∀ seg ∈ p.getLast?, IsName seg

instance (p : Path) : Decidable (t.Vacant p) :=
  decidable_of_iff (t.node p = none ∧ t.node p.dropLast = some .dir ∧ ∀ seg ∈ p.getLast?, IsName seg)
    ⟨fun h => ⟨h.1, h.2.1, h.2.2⟩, fun h => ⟨h.fresh, h.dir, h.name⟩⟩

variable {t}

theorem Vacant.ne_nil (h : t.Vacant p) : p ≠ [] := by
  rintro rfl
  exact absurd h.fresh (by simp)

theorem nodeIn_cons {n : Node} (hp : p ≠ []) :
    nodeIn ((p, n) :: entries) q = if q = p then some n else nodeIn entries q := by
  by_cases hq : q = []
  · simp [nodeIn, hq, hp.symm]
  · by_cases hqp : q = p
    · subst hqp
      simp [nodeIn, hq]
    · simp [nodeIn, hqp, Ne.symm hqp]

variable (t)

/-- With a new entry, where there is a place for it. -/
def add (p : Path) (n : Node) : Tree :=
  if h : t.Vacant p then
    { entries := (p, n) :: t.entries
      parents := by
        have hdir : ∀ q, t.node q = some .dir → nodeIn ((p, n) :: t.entries) q = some .dir := by
          intro q hq
          rw [nodeIn_cons h.ne_nil, if_neg]
          · exact hq
          · rintro rfl
            rw [h.fresh] at hq
            cases hq
        intro e he
        rcases mem_cons.mp he with rfl | he
        · exact hdir _ h.dir
        · exact hdir _ (t.parents e he)
      names := by
        intro e he
        rcases mem_cons.mp he with rfl | he
        · intro seg hseg
          rw [← dropLast_append_getLast h.ne_nil, mem_append] at hseg
          rcases hseg with hseg | hseg
          · exact t.name_of_node (by simp [h.dir]) seg hseg
          · refine h.name seg ?_
            rw [List.getLast?_eq_some_getLast h.ne_nil]
            simpa using (mem_singleton.mp hseg).symm
        · exact t.names e he }
  else t

variable {t}

theorem node_add (h : t.Vacant p) (n : Node) (q : Path) :
    (t.add p n).node q = if q = p then some n else t.node q := by
  rw [add, dif_pos h]
  exact nodeIn_cons h.ne_nil

end Tree

/-! ## Filling in -/

/-- What was there is still there, and what is new is no link. -/
structure Fills (t u : Tree) : Prop where
  kept : ∀ p n, t.node p = some n → u.node p = some n
  links : ∀ p target, u.node p = some (.link target) → t.node p = some (.link target)

theorem Fills.refl (t : Tree) : Fills t t :=
  ⟨fun _ _ h => h, fun _ _ h => h⟩

theorem Fills.trans {t u v : Tree} (h : Fills t u) (h' : Fills u v) : Fills t v :=
  ⟨fun p n hp => h'.kept p n (h.kept p n hp), fun p _ hp => h.links p _ (h'.links p _ hp)⟩

theorem fills_add (t : Tree) (p : Path) {n : Node} (hn : ∀ target, n ≠ .link target) :
    Fills t (t.add p n) := by
  by_cases h : t.Vacant p
  · refine ⟨fun q m hq => ?_, fun q target hq => ?_⟩
    · rw [Tree.node_add h, if_neg]
      · exact hq
      · rintro rfl
        rw [h.fresh] at hq
        cases hq
    · rw [Tree.node_add h] at hq
      split_ifs at hq
      · exact absurd (Option.some.inj hq) (hn target)
      · exact hq
  · rw [Tree.add, dif_neg h]
    exact .refl t

variable {t u : Tree} {n : ℕ} {here tail : Path}

theorem Goes.fills (hf : Fills t u) {m : ℕ} {next more : Path} {seg : Seg}
    (h : Goes t here seg n m next more) : Goes u here seg n m next more := by
  cases h with
  | up n hup => exact .up _ hup
  | skip n hup hseg => exact .skip _ hup hseg
  | dir n hseg hnode => exact .dir _ hseg (hf.kept _ _ hnode)
  | link n target hseg hnode => exact .link _ target hseg (hf.kept _ _ hnode)

/-! ## Paths without links -/

/-- There is no link at any piece of the path, from a place on. -/
def LinkFree (t : Tree) (here : Path) : Path → Prop
  | [] => True
  | seg :: rest =>
    (∀ target, t.node (here ++ [seg]) ≠ some (.link target)) ∧ LinkFree t (here ++ [seg]) rest

theorem LinkFree.append (h : LinkFree t here p) (h' : LinkFree t (here ++ p) q) :
    LinkFree t here (p ++ q) := by
  induction p generalizing here with
  | nil => simpa using h'
  | cons seg rest ih => exact ⟨h.1, ih h.2 (by simpa using h')⟩

theorem Fills.linkFree (hf : Fills t u) (h : LinkFree t here p) : LinkFree u here p := by
  induction p generalizing here with
  | nil => trivial
  | cons seg rest ih => exact ⟨fun target hu => h.1 target (hf.links _ _ hu), ih h.2⟩

/-- Below what is no directory there is nothing. -/
theorem linkFree_of_not_dir (h : t.node here ≠ some .dir) (p : Path) : LinkFree t here p := by
  induction p generalizing here with
  | nil => trivial
  | cons seg rest ih =>
    have hnone : t.node (here ++ [seg]) = none := by
      by_contra hsome
      exact h (t.parent_dir hsome)
    exact ⟨by simp [hnone], ih (by simp [hnone])⟩

/-- The outcome leads to a place: what it found, or where what is missing would be made. -/
def WalkResult.To (q : Path) : WalkResult → Prop
  | .found p => q = p
  | .missing dir rest => q = dir ++ rest
  | .notDir | .tooManyLinks => False

theorem walk_to_of_linkFree (hnames : ∀ seg ∈ p, IsName seg) (hfree : LinkFree t here p)
    (h : (walk t n here p).To q) : q = here ++ p := by
  induction p generalizing here with
  | nil => simpa [WalkResult.To] using h
  | cons seg rest ih =>
    obtain ⟨hseg, hrest⟩ := forall_mem_cons.mp hnames
    match hnode : t.node (here ++ [seg]) with
    | none =>
      rw [walk_missing hseg hnode] at h
      exact h
    | some .dir =>
      rw [walk_dir hseg hnode] at h
      rw [append_cons]
      exact ih hrest hfree.2 h
    | some .file =>
      rw [walk_file hseg hnode] at h
      split_ifs at h with hnil
      · rw [hnil]
        exact h
      · exact h.elim
    | some (.link target) => exact absurd hnode (hfree.1 target)

/-- Where a path leads after something was filled in: to the same place with the rest of the path
    below it, if there is no link among the rest. -/
theorem Fills.walk_append (hf : Fills t u) {r : Path} (h : (walk u n here (p ++ tail)).To r) :
    ∃ q, (walk t n here p).To q ∧
      ((∀ seg ∈ q ++ tail, IsName seg) → LinkFree t q tail → r = q ++ tail) := by
  induction n, here, p using walk_induction t with
  | nil n here =>
    refine ⟨here, by simp [WalkResult.To], fun hnames hfree => ?_⟩
    exact walk_to_of_linkFree (fun seg hseg => hnames seg (mem_append_right _ hseg))
      (hf.linkFree hfree) h
  | goes n m here seg next more rest hgo ih =>
    rw [cons_append, (hgo.fills hf).walk, ← append_assoc] at h
    rw [hgo.walk]
    exact ih h
  | missing n here seg rest hseg hnode =>
    refine ⟨here ++ seg :: rest, by simp [walk_missing hseg hnode, WalkResult.To], ?_⟩
    intro hnames hfree
    rw [append_assoc] at hnames ⊢
    -- Nothing was there at the missing piece and below it, so nothing there is a link now.
    have hmissing : LinkFree t here (seg :: rest) :=
      ⟨by simp [hnode], linkFree_of_not_dir (by simp [hnode]) rest⟩
    exact walk_to_of_linkFree (fun x hx => hnames x (mem_append_right _ hx))
      (hf.linkFree (hmissing.append hfree)) h
  | file n here seg rest hseg hnode =>
    rw [cons_append, walk_file hseg (hf.kept _ _ hnode)] at h
    split_ifs at h with hnil
    · obtain ⟨rfl, rfl⟩ := append_eq_nil_iff.mp hnil
      refine ⟨here ++ [seg], by simp [walk_file hseg hnode, WalkResult.To], fun _ _ => ?_⟩
      rw [append_nil]
      exact h
    · exact h.elim
  | linkZero here seg rest target hseg hnode =>
    rw [cons_append, walk_link_zero hseg (hf.kept _ _ hnode)] at h
    exact h.elim

/-! ## Making directories and files -/

section

variable (n : ℕ) (t : Tree)

def mkdir (p : Path) : Except Errno Tree :=
  match entry t n p with
  | .error err => .error err
  | .ok e => if t.Vacant e then .ok (t.add e .dir) else .error .exist

/-- The directory of a path with all directories above it, on the path's pieces in reverse. A link
    that leads nowhere is an entry without a directory behind it, and is not replaced. -/
def mkdirAllRev : Path → Except Errno Tree
  | [] => .ok t
  | name :: above =>
    match walk t n [] (name :: above).reverse with
    | .found q => if t.node q = some .dir then .ok t else .error .notDir
    | _ =>
      match mkdirAllRev above with
      | .error err => .error err
      | .ok u => mkdir n u (name :: above).reverse

def mkdirAll (p : Path) : Except Errno Tree :=
  mkdirAllRev n t p.reverse

/-- The file of a path, opened for writing and made where there is none: its place and the tree
    with it. -/
def createFile (p : Path) : Except Errno (Path × Tree) :=
  match walk t n [] p with
  | .found q => if t.node q = some .file then .ok (q, t) else .error .isDir
  | .missing dir [name] => .ok (dir ++ [name], t.add (dir ++ [name]) .file)
  | other =>
    match other.toExcept with
    | .ok _ => .error .isDir
    | .error err => .error err

/-- Where a path leads: to what it finds, or to the place where it would be made. -/
def Leads (p q : Path) : Prop :=
  walk t n [] p = .found q ∨ ∃ dir rest, walk t n [] p = .missing dir rest ∧ q = dir ++ rest

end

variable {v : Tree}

theorem leads_iff : Leads n t p q ↔ (walk t n [] p).To q := by
  unfold Leads
  cases walk t n [] p <;> simp [WalkResult.To, eq_comm]

/-- A path leads to one place. -/
theorem leads_unique {r : Path} (hq : Leads n t p q) (hr : Leads n t p r) : q = r := by
  rw [leads_iff] at hq hr
  cases hw : walk t n [] p <;> rw [hw] at hq hr
  · exact hq.trans hr.symm
  · exact hq.trans hr.symm
  all_goals exact hq.elim

theorem mkdir_fills (h : mkdir n t p = .ok u) : Fills t u := by
  unfold mkdir at h
  split at h
  · cases h
  · split_ifs at h
    cases h
    exact fills_add t _ (by simp)

theorem mkdirAllRev_fills {rev : Path} (h : mkdirAllRev n t rev = .ok u) : Fills t u := by
  induction rev generalizing u with
  | nil =>
    cases h
    exact .refl t
  | cons name above ih =>
    rw [mkdirAllRev] at h
    split at h
    · split_ifs at h
      cases h
      exact .refl t
    · split at h
      · cases h
      · exact (ih ‹_›).trans (mkdir_fills h)

theorem mkdirAll_fills (h : mkdirAll n t p = .ok u) : Fills t u :=
  mkdirAllRev_fills h

/-- A file is made where its path leads. -/
theorem createFile_spec (h : createFile n t p = .ok (q, u)) : Leads n t p q ∧ Fills t u := by
  unfold createFile at h
  split at h
  · rename_i r hr
    split_ifs at h
    cases h
    exact ⟨.inl hr, .refl t⟩
  · rename_i dir name hr
    cases h
    exact ⟨.inr ⟨dir, [name], hr, rfl⟩, fills_add t _ (by simp)⟩
  · split at h <;> cases h

end FileTree
