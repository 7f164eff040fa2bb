import Hopclaw.Text.GoPath

/-! # Normal paths and the places they name

What `path.Clean` returns, as data: whether the path is rooted, how often it climbs and the names it
then descends through. Two texts of this kind are compared character by character in programs; here
is what such a comparison says about the directories the paths name. -/

namespace GoPath

open List

/-! ## Splitting and joining -/

theorem splitOn_eq (sep : Char) (l : List Char) : splitOn sep l = l.splitOn sep := by
  fun_induction splitOn sep l <;> simp_all [splitOn_cons_eq_if_modifyHead]

theorem joinSegments_eq (segs : List (List Char)) : joinSegments segs = ['/'].intercalate segs := by
  fun_induction joinSegments segs <;> simp_all [intercalate_cons_cons]

theorem splitOn_append (sep : Char) (l r : List Char) :
    splitOn sep (l ++ sep :: r) = splitOn sep l ++ splitOn sep r := by
  rw [splitOn_eq, splitOn_append_cons_self, splitOn_eq, splitOn_eq]

variable {seg : List Char}

theorem notMem_of_mem_splitOn {sep : Char} {l : List Char} (h : seg ∈ splitOn sep l) :
    sep ∉ seg := by
  fun_induction splitOn sep l generalizing seg <;> grind

theorem joinSegments_append {segs more : List (List Char)} (hsegs : segs ≠ []) (hmore : more ≠ []) :
    joinSegments (segs ++ more) = joinSegments segs ++ '/' :: joinSegments more := by
  fun_induction joinSegments segs with
  | case1 => exact absurd rfl hsegs
  | case2 seg =>
    obtain ⟨next, rest, rfl⟩ := exists_cons_of_ne_nil hmore
    rfl
  | case3 seg next rest ih =>
    rw [cons_append, cons_append, joinSegments, ← cons_append, ih (by simp),
      append_assoc, cons_append]

theorem joinSegments_map (f : Char → Char) (hf : f '/' = '/') (segs : List (List Char)) :
    joinSegments (segs.map (List.map f)) = (joinSegments segs).map f := by
  fun_induction joinSegments segs with
  | case1 => rfl
  | case2 seg => rfl
  | case3 seg next rest ih =>
    simp only [map_cons, joinSegments, map_append, hf] at ih ⊢
    rw [ih]

/-! ## Normal paths -/

/-- The segment that stands for the parent. -/
def up : List Char := ['.', '.']

/-- A segment that names an entry of a directory. -/
structure Named (seg : List Char) : Prop where
  nonempty : seg ≠ []
  not_here : seg ≠ ['.']
  not_up : seg ≠ up
  slashless : '/' ∉ seg

instance (seg : List Char) : Decidable (Named seg) :=
  decidable_of_iff (seg ≠ [] ∧ seg ≠ ['.'] ∧ seg ≠ up ∧ '/' ∉ seg)
    ⟨fun ⟨h₁, h₂, h₃, h₄⟩ => ⟨h₁, h₂, h₃, h₄⟩, fun ⟨h₁, h₂, h₃, h₄⟩ => ⟨h₁, h₂, h₃, h₄⟩⟩

/-- A path that climbs first and then descends; a rooted one does not climb. -/
structure NormalPath where
  rooted : Bool
  ups : ℕ
  names : List (List Char)
  named : ∀ seg ∈ names, Named seg
  ups_rooted : rooted = true → ups = 0

namespace NormalPath

variable (p q : NormalPath)

def segments : List (List Char) :=
  List.replicate p.ups up ++ p.names

/-- The text of a normal path. -/
def chars : List Char :=
  if p.rooted then '/' :: joinSegments p.segments
  else if p.segments = [] then ['.'] else joinSegments p.segments

theorem slashless_of_mem_segments (h : seg ∈ p.segments) : '/' ∉ seg ∧ seg ≠ [] ∧ seg ≠ ['.'] := by
  rcases mem_append.mp h with h | h
  · rw [(mem_replicate.mp h).2]
    decide
  · exact ⟨(p.named seg h).slashless, (p.named seg h).nonempty, (p.named seg h).not_here⟩

theorem splitOn_segments (h : p.segments ≠ []) :
    splitOn '/' (joinSegments p.segments) = p.segments := by
  rw [splitOn_eq, joinSegments_eq]
  exact splitOn_intercalate '/' (fun _ hseg => (p.slashless_of_mem_segments hseg).1) h

variable {p q}

theorem joinSegments_ne_nil (h : p.segments ≠ []) : joinSegments p.segments ≠ [] := by
  intro hnil
  have hsplit := p.splitOn_segments h
  rw [hnil] at hsplit
  have hmem : [] ∈ p.segments := hsplit ▸ mem_cons_self
  exact (p.slashless_of_mem_segments hmem).2.1 rfl

theorem chars_ne_nil : p.chars ≠ [] := by
  rw [chars]
  split_ifs with hrooted hnil
  · simp
  · simp
  · exact joinSegments_ne_nil hnil

/-- The segments are the pieces of the text, but for the empty ones and the one of the path that
    stays where it is. -/
theorem filter_splitOn_chars :
    ((splitOn '/' p.chars).filter fun seg => seg ≠ [] ∧ seg ≠ ['.']) = p.segments := by
  have hall : (p.segments.filter fun seg => seg ≠ [] ∧ seg ≠ ['.']) = p.segments :=
    filter_eq_self.mpr fun seg hseg => by
      simpa using (p.slashless_of_mem_segments hseg).2
  rw [chars]
  split_ifs with hrooted hnil
  · by_cases hnil : p.segments = []
    · simp [hnil, joinSegments, splitOn]
    · rw [splitOn, if_pos rfl, p.splitOn_segments hnil, filter_cons_of_neg (by simp), hall]
  · simp [hnil, splitOn]
  · rw [p.splitOn_segments hnil, hall]

theorem head?_chars : p.chars.head? = some '/' ↔ p.rooted = true := by
  cases hrooted : p.rooted with
  | true => simp [chars, hrooted]
  | false =>
    simp only [Bool.false_eq_true, iff_false]
    intro hhead
    obtain ⟨rest, hrest⟩ := head?_eq_some_iff.mp hhead
    rw [chars, hrooted, if_neg Bool.false_ne_true] at hrest
    split_ifs at hrest with hnil
    · cases hrest
    · -- a text that starts with a slash has an empty first piece
      have hsplit := p.splitOn_segments hnil
      rw [hrest, splitOn] at hsplit
      exact (p.slashless_of_mem_segments (hsplit ▸ mem_cons_self)).2.1 rfl

theorem segments_of_chars (h : p.chars = q.chars) : p.segments = q.segments := by
  rw [← filter_splitOn_chars, h, filter_splitOn_chars]

theorem chars_eq_iff : p.chars = q.chars ↔ p.rooted = q.rooted ∧ p.segments = q.segments := by
  refine ⟨fun h => ⟨?_, segments_of_chars h⟩, fun ⟨hrooted, hsegs⟩ => ?_⟩
  · rw [Bool.eq_iff_iff, ← head?_chars, ← head?_chars, h]
  · rw [chars, chars, hrooted, hsegs]

theorem chars_eq_dot : p.chars = ['.'] ↔ p.rooted = false ∧ p.segments = [] :=
  chars_eq_iff (q := ⟨false, 0, [], by simp, by simp⟩)

theorem chars_eq_slash : p.chars = ['/'] ↔ p.rooted = true ∧ p.segments = [] :=
  chars_eq_iff (q := ⟨true, 0, [], by simp, by simp⟩)

theorem exists_named_iff : (∃ seg ∈ splitOn '/' p.chars, Named seg) ↔ p.names ≠ [] := by
  constructor
  · rintro ⟨seg, hseg, hnamed⟩ hnames
    have hmem : seg ∈ p.segments := by
      rw [← filter_splitOn_chars, mem_filter]
      exact ⟨hseg, by simp [hnamed.nonempty, hnamed.not_here]⟩
    rw [segments, hnames, append_nil] at hmem
    exact hnamed.not_up (mem_replicate.mp hmem).2
  · intro hne
    obtain ⟨seg, hseg⟩ := exists_mem_of_ne_nil _ hne
    have hmem : seg ∈ p.segments := mem_append_right _ hseg
    rw [← filter_splitOn_chars] at hmem
    exact ⟨seg, mem_of_mem_filter hmem, p.named seg hseg⟩

theorem count_up_splitOn : (splitOn '/' p.chars).count up = p.ups := by
  have hcount := count_filter (l := splitOn '/' p.chars) (a := up)
    (p := fun seg => decide (seg ≠ [] ∧ seg ≠ ['.'])) (by decide)
  rw [← hcount, filter_splitOn_chars, segments, count_append,
    count_replicate_self, count_eq_zero_of_not_mem, Nat.add_zero]
  exact fun hmem => (p.named up hmem).not_up rfl

/-- The text of a path without segments is a single character, and no normal path continues it. -/
theorem not_continues_of_segments_eq_nil (hp : p.segments = []) {rest : List Char} :
    q.chars ≠ p.chars ++ '/' :: rest := by
  intro hchars
  have hpiece : ∀ (seg : List Char) {l}, seg = [] ∨ seg = ['.'] → '/' ∉ seg →
      joinSegments q.segments ≠ seg ++ '/' :: l := by
    intro seg l hseg hslash hjoin
    have hne : q.segments ≠ [] := by
      rintro hnil
      rw [hnil] at hjoin
      simp [joinSegments] at hjoin
    have hsplit := q.splitOn_segments hne
    rw [hjoin, splitOn_append, splitOn_eq, splitOn_eq_singleton hslash] at hsplit
    have hmem : seg ∈ q.segments := hsplit ▸ mem_cons_self
    have hpieces := q.slashless_of_mem_segments hmem
    exact hseg.elim hpieces.2.1 hpieces.2.2
  cases hrooted : p.rooted with
  | true =>
    have hq : q.rooted = true := head?_chars.mp (by rw [hchars, chars, hrooted]; rfl)
    rw [chars, chars, hq, hrooted, hp] at hchars
    exact hpiece [] (.inl rfl) (by simp) (cons.inj hchars).2
  | false =>
    have hq : q.rooted = false := by
      rw [← Bool.not_eq_true, ← head?_chars, hchars, chars, hrooted, hp]
      simp
    rw [chars, chars, hq, hrooted, hp] at hchars
    simp only [Bool.false_eq_true, if_false] at hchars
    split_ifs at hchars
    · simp at hchars
    · exact hpiece ['.'] (.inr rfl) (by simp) hchars

/-- One text continues the other after a slash exactly if its path descends further. -/
theorem continues_iff : (∃ rest, q.chars = p.chars ++ '/' :: rest) ↔
    p.rooted = q.rooted ∧ p.segments ≠ [] ∧ ∃ more, more ≠ [] ∧ q.segments = p.segments ++ more := by
  constructor
  · rintro ⟨rest, hchars⟩
    have hrooted : p.rooted = q.rooted := by
      rw [Bool.eq_iff_iff, ← head?_chars, ← head?_chars, hchars,
        head?_append_of_ne_nil _ chars_ne_nil]
    have hsegs : q.segments = p.segments ++
        (splitOn '/' rest).filter fun seg => seg ≠ [] ∧ seg ≠ ['.'] := by
      rw [← filter_splitOn_chars, hchars, splitOn_append, filter_append, filter_splitOn_chars]
    refine ⟨hrooted, fun hnil => not_continues_of_segments_eq_nil hnil hchars, _, ?_, hsegs⟩
    intro hmore
    -- without a further segment the two texts would be the same
    rw [hmore, append_nil] at hsegs
    have hsame := chars_eq_iff.mpr ⟨hrooted, hsegs.symm⟩
    rw [← hsame] at hchars
    simp at hchars
  · rintro ⟨hrooted, hne, more, hmore, hsegs⟩
    have hq : q.segments ≠ [] := by simp [hsegs, hne]
    rw [chars, chars, if_neg hq, ← hrooted, hsegs, joinSegments_append hne hmore]
    split_ifs <;> simp

end NormalPath

/-! ## Other spellings -/

section

variable {f : Char → Char} (hslash : ∀ c, f c = '/' ↔ c = '/') (hdot : ∀ c, f c = '.' ↔ c = '.')

include hslash hdot

theorem Named.map (h : Named seg) : Named (seg.map f) where
  nonempty := fun hnil => h.nonempty (map_eq_nil_iff.mp hnil)
  not_here := by
    intro hmap
    obtain ⟨c, rfl, hc⟩ := map_eq_singleton_iff.mp hmap
    exact h.not_here (by rw [(hdot c).mp hc])
  not_up := by
    intro hmap
    obtain ⟨c, l, rfl, hc, hl⟩ := map_eq_cons_iff.mp hmap
    obtain ⟨d, rfl, hd⟩ := map_eq_singleton_iff.mp hl
    exact h.not_up (by rw [(hdot c).mp hc, (hdot d).mp hd]; rfl)
  slashless := by
    intro hmem
    obtain ⟨c, hc, heq⟩ := mem_map.mp hmem
    exact h.slashless ((hslash c).mp heq ▸ hc)

namespace NormalPath

/-- The path in another spelling, such as lower case. -/
def map (p : NormalPath) : NormalPath where
  rooted := p.rooted
  ups := p.ups
  names := p.names.map (List.map f)
  named := by
    intro seg hseg
    obtain ⟨name, hname, rfl⟩ := mem_map.mp hseg
    exact (p.named name hname).map hslash hdot
  ups_rooted := p.ups_rooted

theorem chars_map (p : NormalPath) : (p.map hslash hdot).chars = p.chars.map f := by
  have hup : up.map f = up := by
    simp [up, (hdot '.').mpr rfl]
  have hsegs : (p.map hslash hdot).segments = p.segments.map (List.map f) := by
    rw [segments, segments, map_append, map_replicate, hup]
    rfl
  rw [chars, chars, hsegs, joinSegments_map f ((hslash '/').mpr rfl)]
  simp only [map, map_eq_nil_iff]
  split_ifs
  · rw [map_cons, (hslash '/').mpr rfl]
  · rw [map_singleton, (hdot '.').mpr rfl]
  · rfl

end NormalPath

end

/-! ## Cleaning gives a normal path -/

/-- The segments kept so far, last one first, are those of a normal path. -/
def Kept (rooted : Bool) (kept : List (List Char)) : Prop :=
  ∃ p : NormalPath, p.rooted = rooted ∧ kept = p.segments.reverse

theorem pushSegment_up (rooted : Bool) (kept : List (List Char)) :
    pushSegment rooted kept up =
      match kept with
      | [] => if rooted then [] else [up]
      | top :: rest => if top = up then up :: kept else rest := by
  cases kept <;> rfl

theorem pushSegment_named (rooted : Bool) (kept : List (List Char)) (h : Named seg) :
    pushSegment rooted kept seg = seg :: kept := by
  have hup : seg ≠ ['.', '.'] := h.not_up
  simp [pushSegment, h.nonempty, h.not_here, hup]

variable {kept : List (List Char)}

theorem Kept.climb {rooted : Bool} (h : Kept rooted kept) :
    Kept rooted (pushSegment rooted kept up) := by
  obtain ⟨p, hp, hkept⟩ := h
  rw [NormalPath.segments, reverse_append, reverse_replicate] at hkept
  rw [pushSegment_up]
  rcases eq_nil_or_concat p.names with hnames | ⟨init, last, hnames⟩
  · rw [hnames, reverse_nil] at hkept
    cases hups : p.ups with
    | zero =>
      -- there is nothing above the root; a relative path climbs
      rw [hups] at hkept
      cases rooted with
      | true => exact ⟨⟨true, 0, [], by simp, by simp⟩, rfl, by rw [hkept]; rfl⟩
      | false => exact ⟨⟨false, 1, [], by simp, by simp⟩, rfl, by rw [hkept]; rfl⟩
    | succ n =>
      have hrel : p.rooted ≠ true := fun hr => absurd (p.ups_rooted hr) (by omega)
      refine ⟨⟨p.rooted, n + 2, [], by simp, fun hr => absurd hr hrel⟩, hp, ?_⟩
      rw [NormalPath.segments, append_nil, reverse_replicate, hkept, hups]
      rfl
  · rw [hnames, concat_eq_append] at hkept
    have hlast := p.named last (by simp [hnames])
    refine ⟨⟨p.rooted, p.ups, init, fun seg hseg => p.named seg (by simp [hnames, hseg]),
      p.ups_rooted⟩, hp, ?_⟩
    rw [hkept]
    simp [NormalPath.segments, hlast.not_up]

theorem Kept.push {rooted : Bool} (h : Kept rooted kept) (hslash : '/' ∉ seg) :
    Kept rooted (pushSegment rooted kept seg) := by
  by_cases hskip : seg = [] ∨ seg = ['.']
  · have hsame : pushSegment rooted kept seg = kept := by
      rcases hskip with rfl | rfl <;> rfl
    rwa [hsame]
  by_cases hup : seg = up
  · rw [hup]
    exact h.climb
  · rw [not_or] at hskip
    have hseg : Named seg := ⟨hskip.1, hskip.2, hup, hslash⟩
    obtain ⟨p, hp, hkept⟩ := h
    refine ⟨⟨p.rooted, p.ups, p.names ++ [seg], ?_, p.ups_rooted⟩, hp, ?_⟩
    · intro name hname
      rcases mem_append.mp hname with hname | hname
      · exact p.named name hname
      · rwa [mem_singleton.mp hname]
    · rw [pushSegment_named rooted kept hseg, hkept]
      simp [NormalPath.segments]

theorem exists_normal_cleanSegments (rooted : Bool) (segs : List (List Char))
    (hsegs : ∀ seg ∈ segs, '/' ∉ seg) :
    ∃ p : NormalPath, p.rooted = rooted ∧ cleanSegments rooted segs = p.segments := by
  have hkept : Kept rooted (segs.foldl (pushSegment rooted) []) :=
    foldlRecOn segs _ ⟨⟨rooted, 0, [], by simp, by simp⟩, rfl, rfl⟩
      fun _ hkept seg hseg => hkept.push (hsegs seg hseg)
  obtain ⟨p, hp, hsegs⟩ := hkept
  exact ⟨p, hp, by rw [cleanSegments, hsegs, reverse_reverse]⟩

/-- `path.Clean` returns a normal path. -/
theorem exists_normal_clean (s : String) : ∃ p : NormalPath, (clean s).toList = p.chars := by
  obtain ⟨p, hp, hsegs⟩ := exists_normal_cleanSegments (decide (s.toList.head? = some '/'))
    (splitOn '/' s.toList) fun _ => notMem_of_mem_splitOn
  refine ⟨p, ?_⟩
  rw [clean, hsegs, NormalPath.chars, hp]
  generalize decide (s.toList.head? = some '/') = rooted
  cases rooted with
  | true => simp
  | false =>
    by_cases hnil : p.segments = []
    · simp [hnil, joinSegments]
    · have hjoin := NormalPath.joinSegments_ne_nil hnil
      simp [hnil]

/-! ## The places paths name -/

/-- One segment further from a directory, given by the names on the way to it. -/
def enter (here : List (List Char)) (seg : List Char) : List (List Char) :=
  if seg = [] ∨ seg = ['.'] then here else if seg = up then here.dropLast else here ++ [seg]

/-- The place a path names in a working directory. -/
def location (cwd : List (List Char)) (path : List Char) : List (List Char) :=
  (splitOn '/' path).foldl enter (if path.head? = some '/' then [] else cwd)

/-- The requested path names a place at or below the allowed one, whatever the working
    directory. -/
def Within (allowed requested : List Char) : Prop :=
  ∀ cwd : List (List Char), (∀ seg ∈ cwd, Named seg) →
    location cwd allowed <+: location cwd requested

theorem foldl_enter_ups (here : List (List Char)) (n : ℕ) :
    (replicate n up).foldl enter here = here.rdrop n := by
  induction n generalizing here with
  | zero => simp
  | succ n ih =>
    rw [replicate_succ, foldl_cons, ih]
    simp only [enter, up, reduceCtorEq, cons.injEq, and_false, or_self]
    rw [dropLast_eq_take, Nat.add_comm, ← rdrop_add]
    rfl

theorem foldl_enter_names {names : List (List Char)} (h : ∀ seg ∈ names, Named seg)
    (here : List (List Char)) : names.foldl enter here = here ++ names := by
  induction names generalizing here with
  | nil => simp
  | cons seg names ih =>
    have hseg := h seg mem_cons_self
    rw [foldl_cons, ih fun s hs => h s (mem_cons_of_mem _ hs), enter,
      if_neg (not_or.mpr ⟨hseg.nonempty, hseg.not_here⟩), if_neg hseg.not_up]
    simp

theorem foldl_enter_filter (segs here : List (List Char)) :
    (segs.filter fun seg => seg ≠ [] ∧ seg ≠ ['.']).foldl enter here = segs.foldl enter here := by
  induction segs generalizing here with
  | nil => rfl
  | cons seg segs ih =>
    by_cases hskip : seg = [] ∨ seg = ['.']
    · rw [filter_cons_of_neg (by simp; tauto), ih, foldl_cons, enter, if_pos hskip]
    · rw [filter_cons_of_pos (by simp; tauto), foldl_cons, foldl_cons, ih]

namespace NormalPath

variable (p q : NormalPath)

theorem location_chars (cwd : List (List Char)) :
    location cwd p.chars = if p.rooted then p.names else cwd.rdrop p.ups ++ p.names := by
  rw [location, ← foldl_enter_filter, filter_splitOn_chars, segments, foldl_append,
    foldl_enter_ups, foldl_enter_names p.named]
  simp only [head?_chars]
  split_ifs with hrooted
  · simp
  · rfl

variable {p q}

/-- Beginnings of lists that repeat an element before others that do not start with it. -/
theorem replicate_append_prefix_iff {α : Type} {x : α} {ps qs : List α} (hps : ps.head? ≠ some x)
    (hqs : qs.head? ≠ some x) {a b : ℕ} :
    replicate a x ++ ps <+: replicate b x ++ qs ↔
      if ps = [] then a ≤ b else a = b ∧ ps <+: qs := by
  induction a generalizing b with
  | zero =>
    cases ps with
    | nil => simp
    | cons first ps =>
      cases b with
      | zero => simp
      | succ b =>
        have hne : first ≠ x := fun h => hps (by rw [h]; rfl)
        simp [replicate_succ, hne]
  | succ a ih =>
    cases b with
    | zero =>
      have hnot : ¬ x :: (replicate a x ++ ps) <+: qs := by
        rintro ⟨rest, rfl⟩
        exact hqs rfl
      refine iff_of_false hnot ?_
      split_ifs <;> simp
    | succ b =>
      rw [replicate_succ, replicate_succ, cons_append, cons_append, cons_prefix_cons, ih]
      simp

theorem exists_named_notMem (names : List (List Char)) (h : ∀ seg ∈ names, Named seg) :
    ∃ name, Named name ∧ name ∉ names := by
  refine ⟨'x' :: names.flatten, ⟨by simp, by simp, by simp [up], ?_⟩, fun hmem => ?_⟩
  · simp only [mem_cons, mem_flatten, not_or, not_exists, not_and]
    exact ⟨by decide, fun seg hseg => (h seg hseg).slashless⟩
  · have hlength := (sublist_flatten_of_mem hmem).length_le
    rw [length_cons] at hlength
    omega

/-- What a path names is at or below what another one names, in every working directory. One that is
    deep and made of names unknown to the two paths tells them apart. -/
theorem within_iff : Within p.chars q.chars ↔
    if p.names = [] then p.rooted = true ∨ q.rooted = false ∧ q.ups ≤ p.ups
    else p.rooted = q.rooted ∧ p.ups = q.ups ∧ p.names <+: q.names := by
  simp only [Within, location_chars]
  constructor
  · intro h
    obtain ⟨name, hname, hnew⟩ := exists_named_notMem (p.names ++ q.names) fun seg hseg =>
      (mem_append.mp hseg).elim (p.named seg) (q.named seg)
    rw [mem_append, not_or] at hnew
    have hdeep : ∀ r : NormalPath, (if r.rooted then r.names else
        (replicate (p.ups + q.ups + 1) name).rdrop r.ups ++ r.names) =
        replicate (if r.rooted then 0 else p.ups + q.ups + 1 - r.ups) name ++ r.names := by
      intro r
      split_ifs <;> simp [rdrop]
    have hcwd := h (replicate (p.ups + q.ups + 1) name)
      fun seg hseg => (mem_replicate.mp hseg).2 ▸ hname
    rw [hdeep, hdeep, replicate_append_prefix_iff (fun hhead => hnew.1 (mem_of_mem_head? hhead))
      fun hhead => hnew.2 (mem_of_mem_head? hhead)] at hcwd
    have hp := p.ups_rooted
    have hq := q.ups_rooted
    by_cases hnames : p.names = []
    · rw [if_pos hnames] at hcwd ⊢
      cases hpr : p.rooted <;> cases hqr : q.rooted <;> simp [hpr, hqr] at hcwd ⊢ <;> omega
    · cases hpr : p.rooted <;> cases hqr : q.rooted <;> simp_all
      omega
  · intro h cwd _
    split_ifs at h with hnames
    · rcases h with hp | ⟨hq, hle⟩
      · simp [hnames, hp]
      · obtain ⟨k, hk⟩ := Nat.exists_eq_add_of_le hle
        simp only [hnames, hq, hk, Bool.false_eq_true, if_false, ← rdrop_add, append_nil]
        split_ifs
        · exact nil_prefix
        · exact ( take_prefix _ _).trans (prefix_append _ _)
    · obtain ⟨hrooted, hups, hprefix⟩ := h
      rw [hrooted, hups]
      split_ifs
      · exact hprefix
      · exact (prefix_append_right_inj _).mpr hprefix

/-- Names do not climb, so the numbers of climbs are compared with one another. -/
theorem segments_prefix_iff : p.segments <+: q.segments ↔
    if p.names = [] then p.ups ≤ q.ups else p.ups = q.ups ∧ p.names <+: q.names :=
  replicate_append_prefix_iff
    (fun hhead => (p.named up (mem_of_mem_head? hhead)).not_up rfl)
    fun hhead => (q.named up (mem_of_mem_head? hhead)).not_up rfl

end NormalPath

end GoPath
