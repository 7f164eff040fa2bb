import Mathlib.Data.List.Infix
import Mathlib.Data.List.DropRight

/-! # The words of a simple shell command

How a POSIX shell splits a text into words, for texts that are one simple command. `scan` gives the
words, with quotes removed and before any expansion, or nothing where the text has an operator, a
redirection, a command substitution, a second command on another line or an open quote. -/

namespace ShellWords

open Option List

inductive Quoting
  | plain | escaped | single | double | doubleEscaped | comment
deriving DecidableEq

/-- The words that are complete, the word that is being read, and how the next character is read. -/
structure Scanner where
  words : List (List Char) := []
  current : Option (List Char) := none
  quoting : Quoting := .plain
  /-- The last character was a `$` inside double quotes. -/
  afterDollar : Bool := false
  /-- A line with a command on it is over. -/
  ended : Bool := false
deriving DecidableEq

namespace Scanner

/-- More text for the current word, or for a new one; after a command's line there is none. -/
def put (s : Scanner) (cs : List Char) (quoting : Quoting) : Option Scanner :=
  if s.ended then none
  else some { s with current := some (s.current.getD [] ++ cs), quoting, afterDollar := false }

def flush (s : Scanner) : Scanner :=
  { s with words := s.words ++ s.current.toList, current := none }

def newline (s : Scanner) : Scanner :=
  { s.flush with quoting := .plain, ended := s.flush.words ≠ [] }

end Scanner

def blank (c : Char) : Bool :=
  c = ' ' || c = '\t'

/-- The characters that end a simple command or redirect it, or start a substitution. -/
def operator (c : Char) : Bool :=
  c ∈ [';', '&', '|', '<', '>', '(', ')', '`']

def stepPlain (s : Scanner) (c : Char) : Option Scanner :=
  if blank c then some s.flush
  else if c = '\n' then some s.newline
  else if operator c then none
  else if c = '\'' then s.put [] .single
  else if c = '"' then s.put [] .double
  else if c = '\\' then some { s with quoting := .escaped }
  else if c = '#' && s.current = none then some { s with quoting := .comment }
  else s.put [c] .plain

def step (s : Scanner) (c : Char) : Option Scanner :=
  match s.quoting with
  | .plain => stepPlain s c
  | .escaped => if c = '\n' then some { s with quoting := .plain } else s.put [c] .plain
  | .single => if c = '\'' then s.put [] .plain else s.put [c] .single
  | .double =>
    if c = '"' then s.put [] .plain
    else if c = '\\' then some { s with quoting := .doubleEscaped, afterDollar := false }
    else if c = '`' || c = '(' && s.afterDollar then none
    else (s.put [c] .double).map fun s => { s with afterDollar := c = '$' }
  | .doubleEscaped =>
    if c = '\n' then some { s with quoting := .double }
    else if c ∈ ['$', '`', '"', '\\'] then s.put [c] .double
    else s.put ['\\', c] .double
  | .comment => if c = '\n' then some s.newline else some s

/-- The words at the end of the text; a backslash at the very end stands for itself. -/
def finish (s : Scanner) : Option (List (List Char)) :=
  match s.quoting with
  | .plain | .comment => some s.flush.words
  | .escaped => (s.put ['\\'] .plain).map fun s => s.flush.words
  | .single | .double | .doubleEscaped => none

def run (s : Scanner) (text : List Char) : Option Scanner :=
  text.foldlM step s

/-- The words of the one simple command in a text. -/
def scan (text : String) : Option (List String) :=
  ((run {} text.toList).bind finish).map fun words => words.map String.ofList

example : scan "ls -l 'a b' \"c;d\" # rest" = some ["ls", "-l", "a b", "c;d"] := by decide +kernel

/-! ## The first word -/

theorem run_cons (s : Scanner) (c : Char) (text : List Char) :
    run s (c :: text) = (step s c).bind fun s => run s text :=
  rfl

theorem run_append (s : Scanner) (text₁ text₂ : List Char) :
    run s (text₁ ++ text₂) = (run s text₁).bind fun s => run s text₂ := by
  simp only [run, foldlM_append]
  rfl

/-- Blanks and empty lines before a command are skipped. -/
theorem run_blanks {text : List Char} (h : ∀ c ∈ text, blank c = true ∨ c = '\n') :
    run {} text = some {} := by
  induction text with
  | nil => rfl
  | cons c text ih =>
    have hstep : step {} c = some {} := by
      show stepPlain {} c = _
      unfold stepPlain
      obtain hc | rfl := h c mem_cons_self
      · rw [if_pos hc]
        rfl
      · rfl
    rw [run_cons, hstep]
    exact ih fun d hd => h d (mem_cons_of_mem _ hd)

/-- A character that stands for itself, wherever it is in a word. -/
def ordinary (c : Char) : Bool :=
  !blank c && c ≠ '\n' && !operator c && c ≠ '\'' && c ≠ '"' && c ≠ '\\' && c ≠ '#'

variable {s : Scanner}

theorem stepPlain_ordinary {c : Char} (hc : ordinary c = true) :
    stepPlain s c = s.put [c] .plain := by
  simp only [ordinary, Bool.and_eq_true, Bool.not_eq_true', decide_eq_true_eq] at hc
  obtain ⟨⟨⟨⟨⟨⟨hblank, hnewline⟩, hop⟩, hsingle⟩, hdouble⟩, hescape⟩, hhash⟩ := hc
  unfold stepPlain
  simp [hblank, hnewline, hop, hsingle, hdouble, hescape, hhash]

/-- A word of ordinary characters is read as it is. -/
theorem run_ordinary {word : List Char} (h : ∀ c ∈ word, ordinary c = true) (hne : word ≠ []) :
    run {} word = some { current := some word } := by
  induction word using reverseRecOn with
  | nil => exact absurd rfl hne
  | append_singleton word c ih =>
    have hc : ordinary c = true := h c (by simp)
    have hstep : ∀ cur, step { current := cur } c = some { current := some (cur.getD [] ++ [c]) } := by
      intro cur
      show stepPlain _ c = _
      rw [stepPlain_ordinary hc]
      rfl
    rw [run_append]
    by_cases hword : word = []
    · rw [hword, run]
      show run {} [c] = _
      rw [run_cons, hstep]
      rfl
    · rw [ih (fun d hd => h d (by simp [hd])) hword]
      show run _ [c] = _
      rw [run_cons, hstep]
      rfl

/-- The first word so far. -/
def Scanner.first (s : Scanner) : Option (List Char) :=
  (s.words ++ s.current.toList).head?

/-- The first word only grows, and once it is complete it stays. -/
structure Grows (s s' : Scanner) : Prop where
  extends_ : ∀ v, s.first = some v → ∃ v', s'.first = some v' ∧ v <+: v'
  complete : ∀ v, s.words.head? = some v → s'.words.head? = some v

theorem Grows.refl (s : Scanner) : Grows s s :=
  ⟨fun v h => ⟨v, h, prefix_refl v⟩, fun _ h => h⟩

variable {t : Scanner}

theorem Grows.trans {u : Scanner} (h1 : Grows s t) (h2 : Grows t u) : Grows s u := by
  refine ⟨fun v h => ?_, fun v h => h2.complete v (h1.complete v h)⟩
  obtain ⟨v', h', hpre⟩ := h1.extends_ v h
  obtain ⟨v'', h'', hpre'⟩ := h2.extends_ v' h'
  exact ⟨v'', h'', hpre.trans hpre'⟩

/-- The words and the current word decide. -/
theorem Grows.congr (hwords : t.words = s.words) (hcurrent : t.current = s.current) :
    Grows s t := by
  refine ⟨fun v h => ⟨v, ?_, prefix_refl v⟩, fun v h => hwords ▸ h⟩
  rw [Scanner.first, hwords, hcurrent]
  exact h

theorem grows_flush (s : Scanner) : Grows s s.flush := by
  refine ⟨fun v h => ⟨v, ?_, prefix_refl v⟩, fun v h => ?_⟩
  · rw [Scanner.first, Scanner.flush, toList_none, append_nil]
    exact h
  · rw [Scanner.flush, head?_append, h]
    rfl

theorem grows_newline (s : Scanner) : Grows s s.newline :=
  (grows_flush s).trans (.congr rfl rfl)

theorem grows_put {cs : List Char} {q : Quoting} (h : s.put cs q = some t) : Grows s t := by
  unfold Scanner.put at h
  split_ifs at h
  obtain rfl := some.inj h
  refine ⟨fun v hv => ?_, fun v hv => hv⟩
  cases hwords : s.words with
  | cons w ws =>
    simp only [Scanner.first, hwords, cons_append, head?_cons, some.injEq] at hv ⊢
    exact ⟨w, rfl, hv ▸ prefix_refl w⟩
  | nil =>
    cases hcurrent : s.current with
    | none => simp [Scanner.first, hwords, hcurrent] at hv
    | some cur =>
      obtain rfl : cur = v := by simpa [Scanner.first, hwords, hcurrent] using hv
      exact ⟨cur ++ cs, by simp [Scanner.first], prefix_append cur cs⟩

theorem grows_step {c : Char} (h : step s c = some t) : Grows s t := by
  unfold step at h
  split at h
  · unfold stepPlain at h
    split_ifs at h
    · exact some.inj h ▸ grows_flush s
    · exact some.inj h ▸ grows_newline s
    · exact grows_put h
    · exact grows_put h
    · exact some.inj h ▸ .congr rfl rfl
    · exact some.inj h ▸ .congr rfl rfl
    · exact grows_put h
  · split_ifs at h
    · exact some.inj h ▸ .congr rfl rfl
    · exact grows_put h
  · split_ifs at h
    · exact grows_put h
    · exact grows_put h
  · split_ifs at h
    · exact grows_put h
    · exact some.inj h ▸ .congr rfl rfl
    · obtain ⟨u, hu, rfl⟩ := map_eq_some_iff.mp h
      exact (grows_put hu).trans (.congr rfl rfl)
  · split_ifs at h
    · exact some.inj h ▸ .congr rfl rfl
    · exact grows_put h
    · exact grows_put h
  · split_ifs at h
    · exact some.inj h ▸ grows_newline s
    · exact some.inj h ▸ .refl s

theorem grows_run {text : List Char} (h : run s text = some t) : Grows s t := by
  induction text generalizing s with
  | nil => exact some.inj h ▸ .refl s
  | cons c text ih =>
    obtain ⟨u, hu, ht⟩ := bind_eq_some_iff.mp h
    exact (grows_step hu).trans (ih ht)

/-- What the scanner has of the first word is how the first word of the result begins. -/
theorem grows_finish {words : List (List Char)} (h : finish s = some words) :
    Grows s { words } := by
  have hflush : ∀ t : Scanner, Grows t { words := t.flush.words } := fun t =>
    (grows_flush t).trans (.congr rfl rfl)
  unfold finish at h
  split at h
  · exact some.inj h ▸ hflush s
  · exact some.inj h ▸ hflush s
  · obtain ⟨t, ht, rfl⟩ := map_eq_some_iff.mp h
    exact (grows_put ht).trans (hflush t)
  all_goals cases h

end ShellWords
