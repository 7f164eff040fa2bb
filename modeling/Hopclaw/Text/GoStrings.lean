import Mathlib.Data.List.DropRight
import Mathlib.Data.List.Infix

/-! # The string functions the program calls

Go's `strings` functions on the texts the modelled code handles, as computable functions of the
list of characters of a string. They are irreducible: a proof about a program that branches on a
text never needs to look inside them, and must not evaluate them by accident. -/

namespace GoStrings

open List String

/-- `unicode.IsSpace`. -/
def isSpace (c : Char) : Bool :=
  let n := c.toNat
  (9 ≤ n && n ≤ 13) || n = 0x20 || n = 0x85 || n = 0xA0 || n = 0x1680 ||
    (0x2000 ≤ n && n ≤ 0x200A) || n = 0x2028 || n = 0x2029 || n = 0x202F || n = 0x205F ||
    n = 0x3000

/-- `strings.TrimSpace`. -/
@[irreducible] def trimSpace (s : String) : String :=
  String.ofList ((s.toList.dropWhile isSpace).rdropWhile isSpace)

/-- The one-to-one lower-case mapping of `unicode.ToLower` on the characters that map to ASCII. -/
def lowerRune (c : Char) : Char :=
  if c.toNat = 0x212A then 'k' else if c.toNat = 0x130 then 'i' else c.toLower

/-- `strings.ToLower`. -/
@[irreducible] def toLower (s : String) : String :=
  String.ofList (s.toList.map lowerRune)

/-- The one-to-one upper-case mapping of `unicode.ToUpper` on the characters that map to ASCII. -/
def upperRune (c : Char) : Char :=
  if c.toNat = 0x131 then 'I' else if c.toNat = 0x17F then 'S' else c.toUpper

/-- `strings.ToUpper`. -/
@[irreducible] def toUpper (s : String) : String :=
  String.ofList (s.toList.map upperRune)

/-- The representative of a character's simple case folding on the characters that fold with an
    ASCII letter. -/
def foldRune (c : Char) : Char :=
  if c.toNat = 0x212A then 'k' else if c.toNat = 0x17F then 's' else c.toLower

/-- `strings.EqualFold`. -/
@[irreducible] def equalFold (s t : String) : Bool :=
  s.toList.map foldRune = t.toList.map foldRune

/-- `strings.Contains`. -/
@[irreducible] def contains (s sub : String) : Bool :=
  decide (sub.toList <:+: s.toList)

/-- `strings.HasPrefix`. -/
@[irreducible] def hasPrefix (s pre : String) : Bool :=
  pre.toList.isPrefixOf s.toList

/-- `strings.HasSuffix`. -/
@[irreducible] def hasSuffix (s suf : String) : Bool :=
  suf.toList.isSuffixOf s.toList

/-- `strings.TrimPrefix`. -/
@[irreducible] def trimPrefix (s pre : String) : String :=
  if hasPrefix s pre then String.ofList (s.toList.drop pre.toList.length) else s

/-- `strings.TrimSuffix`. -/
@[irreducible] def trimSuffix (s suf : String) : String :=
  if hasSuffix s suf then String.ofList (s.toList.take (s.toList.length - suf.toList.length)) else s

/-- `strings.Join`. -/
def join (sep : String) : List String → String
  | [] => ""
  | [s] => s
  | s :: t :: rest => s ++ sep ++ join sep (t :: rest)

/-- `strings.ReplaceAll` of one character by another. -/
def replaceChar (s : String) (old new : Char) : String :=
  String.ofList (s.toList.map fun c => if c = old then new else c)

/-- `strings.Trim(s, cutset)` for a cutset of one character. -/
def trimChar (s : String) (cut : Char) : String :=
  String.ofList ((s.toList.dropWhile (· = cut)).rdropWhile (· = cut))

/-- `normalize.DedupeStrings`: trimmed, without blanks, each text at its first occurrence. -/
@[irreducible] def dedupeStrings (items : List String) : List String :=
  items.foldl (fun out item =>
    let trimmed := trimSpace item
    if trimmed = "" || trimmed ∈ out then out else out ++ [trimmed]) []

/-- `normalize.FirstNonEmpty`. -/
def firstNonEmpty (values : List String) : String :=
  ((values.map trimSpace).find? (· ≠ "")).getD ""

/-- `strings.Fields`: the maximal parts without blanks. -/
@[irreducible] def fields (s : String) : List String :=
  ((s.toList.splitOnP isSpace).filter fun w => w ≠ []).map String.ofList

/-- `%q` of a text that needs no escapes. -/
def quoted (s : String) : String :=
  "\"" ++ s ++ "\""

/-- `fmt.Sprintf("%0wd", n)`: decimal digits, padded with zeros to at least `width` of them. -/
def zeroPadded (width n : ℕ) : List Char :=
  List.replicate (width - (Nat.toDigits 10 n).length) '0' ++ Nat.toDigits 10 n

/-- Reading the digits back forgets the padding. -/
theorem ofDigitChars_zeroPadded (width n : ℕ) : Nat.ofDigitChars 10 (zeroPadded width n) 0 = n := by
  rw [zeroPadded, Nat.ofDigitChars_append, Nat.ofDigitChars_replicate_zero, Nat.mul_zero,
    Nat.ofDigitChars_ten_toDigits]

theorem zeroPadded_injective (width : ℕ) : Function.Injective (zeroPadded width) := by
  intro m n h
  rw [← ofDigitChars_zeroPadded width m, h, ofDigitChars_zeroPadded]

variable {c : Char}

theorem isDigit_of_mem_zeroPadded {width n : ℕ} (h : c ∈ zeroPadded width n) :
    c.isDigit = true := by
  rcases mem_append.mp h with h | h
  · rw [(mem_replicate.mp h).2]
    decide
  · exact Nat.isDigit_of_mem_toDigits (by omega) (by omega) h

/-- `strconv.ParseUint` in base ten, without its upper bound. -/
def parseUint (s : String) : Option ℕ :=
  if s ≠ "" ∧ s.toList.all Char.isDigit = true then some (Nat.ofDigitChars 10 s.toList 0) else none

theorem parseUint_zeroPadded (width n : ℕ) : parseUint (ofList (zeroPadded width n)) = some n := by
  have hne : ofList (zeroPadded width n) ≠ "" := by
    intro h
    have := congrArg toList h
    simp [zeroPadded] at this
  have hall : (zeroPadded width n).all Char.isDigit = true :=
    all_eq_true.mpr fun c hc => isDigit_of_mem_zeroPadded hc
  rw [parseUint, toList_ofList, if_pos ⟨hne, hall⟩, ofDigitChars_zeroPadded]

/-! ## Texts without blanks around them -/

variable {s : String}

/-- A text that neither starts nor ends with a blank is its own trimmed form. -/
theorem trimSpace_eq_self (hfirst : ∀ c, s.toList.head? = some c → isSpace c = false)
    (hlast : ∀ c, s.toList.getLast? = some c → isSpace c = false) : trimSpace s = s := by
  have hl : s.toList.dropWhile isSpace = s.toList := by
    cases hs : s.toList with
    | nil => rfl
    | cons c cs => rw [dropWhile_cons, hfirst c (by rw [hs]; rfl), if_neg (by simp)]
  have hr : s.toList.rdropWhile isSpace = s.toList := by
    rw [rdropWhile_eq_self_iff]
    intro hne
    rw [hlast _ (getLast?_eq_some_getLast hne)]
    simp
  rw [trimSpace, hl, hr, ofList_toList]

@[simp] theorem trimSpace_empty : trimSpace "" = "" := by
  rw [trimSpace]
  rfl

theorem toLower_eq_empty_iff : toLower s = "" ↔ s = "" := by
  rw [toLower, ← toList_eq_nil_iff, toList_ofList, map_eq_nil_iff, toList_eq_nil_iff]

theorem trimSpace_trimSpace (s : String) : trimSpace (trimSpace s) = trimSpace s := by
  have hlist : (trimSpace s).toList = (s.toList.dropWhile isSpace).rdropWhile isSpace := by
    rw [trimSpace, toList_ofList]
  refine trimSpace_eq_self (fun c h => ?_) fun c h => ?_ <;> rw [hlist] at h
  · obtain ⟨rest, hrest⟩ := rdropWhile_prefix isSpace (s.toList.dropWhile isSpace)
    have hhead : (s.toList.dropWhile isSpace).head? = some c := by
      rw [← hrest, head?_append, h]
      rfl
    simpa [hhead] using head?_dropWhile_not isSpace s.toList
  · have hne : (s.toList.dropWhile isSpace).rdropWhile isSpace ≠ [] := by
      rintro hnil
      simp [hnil] at h
    have hlast := rdropWhile_last_not isSpace (s.toList.dropWhile isSpace) hne
    rw [getLast?_eq_some_getLast hne, Option.some.injEq] at h
    rw [h] at hlast
    simpa using hlast

/-! ## Words -/

/-- The words of a text as lists of characters. -/
def words (cs : List Char) : List (List Char) :=
  (cs.splitOnP isSpace).filter fun w => w ≠ []

theorem fields_eq (s : String) : fields s = (words s.toList).map ofList := by
  rw [fields, words]

/-- Space ends a word; the other facts about words follow from this one. -/
theorem words_append_space (hc : isSpace c = true) (x y : List Char) :
    words (x ++ c :: y) = words x ++ words y := by
  rw [words, splitOnP_append_cons x y hc, filter_append]
  rfl

theorem words_cons_space (hc : isSpace c = true) (y : List Char) : words (c :: y) = words y :=
  words_append_space hc [] y

/-- A word at the start of a text is its first word. -/
theorem words_append {w rest : List Char} (hne : w ≠ []) (hw : ∀ c ∈ w, isSpace c = false)
    (hrest : ∀ c ∈ rest.head?, isSpace c = true) : words (w ++ rest) = w :: words rest := by
  have hone : words w = [w] := by
    rw [words, splitOnP_eq_singleton hw]
    simp [hne]
  cases rest with
  | nil => rw [append_nil, hone]; rfl
  | cons c rest =>
    have hc := hrest c rfl
    rw [words_append_space hc, hone, words_cons_space hc]
    rfl

theorem words_dropWhile (cs : List Char) : words (cs.dropWhile isSpace) = words cs := by
  induction cs with
  | nil => rfl
  | cons c cs ih =>
    by_cases hc : isSpace c = true
    · rw [dropWhile_cons_of_pos hc, ih, words_cons_space hc]
    · rw [dropWhile_cons_of_neg hc]

theorem words_rdropWhile (cs : List Char) : words (cs.rdropWhile isSpace) = words cs := by
  induction cs using reverseRecOn with
  | nil => rfl
  | append_singleton cs c ih =>
    by_cases hc : isSpace c = true
    · rw [rdropWhile_concat_pos isSpace cs c hc, ih, words_append_space hc]
      exact (append_nil _).symm
    · rw [rdropWhile_concat_neg isSpace cs c hc]

theorem fields_trimSpace (s : String) : fields (trimSpace s) = fields s := by
  rw [fields_eq, trimSpace, toList_ofList, words_rdropWhile, words_dropWhile, ← fields_eq]

/-- The first word stands between the leading space and the next one. -/
theorem takeWhile_of_fields {name : String} (h : (fields s).head? = some name) :
    (s.toList.dropWhile isSpace).takeWhile (fun c => !isSpace c) = name.toList := by
  rw [fields_eq, ← words_dropWhile] at h
  set text := s.toList.dropWhile isSpace with htext
  have hrest : ∀ c ∈ (text.dropWhile fun c => !isSpace c).head?, isSpace c = true := by
    intro c hc
    simpa [Option.mem_def.mp hc] using head?_dropWhile_not (fun c => !isSpace c) text
  rw [← takeWhile_append_dropWhile (l := text)] at h
  by_cases hne : text.takeWhile (fun c => !isSpace c) = []
  · -- The text begins with no space, so there is no word and the text is empty.
    cases hcs : text with
    | nil => simp [hcs, words] at h
    | cons c cs =>
      have hc : isSpace c = false := by
        simpa [← htext, hcs] using head?_dropWhile_not isSpace s.toList
      simp [hcs, hc] at hne
  · rw [words_append hne (fun c hc => by simpa using mem_takeWhile_imp hc) hrest] at h
    simpa using congrArg toList (Option.some.inj h)

/-! ## Beginnings and ends -/

variable {pre : String}

theorem hasPrefix_iff : hasPrefix s pre = true ↔ pre.toList <+: s.toList := by
  simp [hasPrefix]

variable {suf : String}

theorem hasSuffix_iff : hasSuffix s suf = true ↔ suf.toList <:+ s.toList := by
  simp [hasSuffix]

theorem exists_of_hasPrefix (h : hasPrefix s pre = true) : ∃ r, s = pre ++ r := by
  obtain ⟨rest, hrest⟩ := hasPrefix_iff.mp h
  exact ⟨ofList rest, String.toList_injective (by simp [hrest])⟩

theorem trimPrefix_eq (pre s : String) : trimPrefix (pre ++ s) pre = s := by
  simp [trimPrefix, hasPrefix]

theorem trimPrefix_of_not (h : hasPrefix s pre = false) : trimPrefix s pre = s := by
  simp [trimPrefix, h]

theorem trimSuffix_eq (s suf : String) : trimSuffix (s ++ suf) suf = s := by
  simp [trimSuffix, hasSuffix]

theorem trimSuffix_of_not (h : hasSuffix s suf = false) : trimSuffix s suf = s := by
  simp [trimSuffix, h]

theorem hasPrefix_of_trimSuffix (h : hasPrefix (trimSuffix s suf) pre = true) :
    hasPrefix s pre = true := by
  rw [trimSuffix] at h
  split at h
  · rw [hasPrefix_iff, toList_ofList] at h
    exact hasPrefix_iff.mpr (h.trans ( take_prefix _ _))
  · exact h

theorem eq_of_trimSuffix_eq_empty (h : trimSuffix s suf = "") : s = "" ∨ s = suf := by
  by_cases hend : hasSuffix s suf = true
  · obtain ⟨body, hbody⟩ := hasSuffix_iff.mp hend
    have hs : s = ofList body ++ suf := String.toList_injective (by simp [hbody])
    rw [hs, trimSuffix_eq] at h
    exact .inr (by rw [hs, h, empty_append])
  · rw [Bool.not_eq_true] at hend
    exact .inl (trimSuffix_of_not hend ▸ h)

theorem trimSuffix_append (hsuf : suf.toList.length = 1) (hs : s ≠ "") :
    trimSuffix (pre ++ s) suf = pre ++ trimSuffix s suf := by
  by_cases hend : hasSuffix s suf = true
  · obtain ⟨body, hbody⟩ := hasSuffix_iff.mp hend
    have hs' : s = ofList body ++ suf := by
      apply String.toList_injective
      simp [hbody]
    rw [hs', ← String.append_assoc, trimSuffix_eq, trimSuffix_eq]
  · rw [Bool.not_eq_true] at hend
    rw [trimSuffix_of_not hend, trimSuffix_of_not]
    by_contra hlong
    rw [Bool.not_eq_false, hasSuffix_iff, String.toList_append] at hlong
    -- Both `s` and the one character end the text, so the shorter one ends the longer one.
    rcases suffix_or_suffix_of_suffix hlong (suffix_append _ _) with h | h
    · rw [hasSuffix_iff.mpr h] at hend
      cases hend
    · have hne : s.toList ≠ [] := by simpa using hs
      have hlen : s.toList.length = suf.toList.length := by
        have h1 := h.length_le
        have h2 := length_pos_iff.mpr hne
        omega
      rw [hasSuffix_iff.mpr (h.eq_of_length hlen ▸ suffix_refl _)] at hend
      cases hend

theorem isSpace_of_isDigit (h : c.isDigit = true) : isSpace c = false := by
  simp only [Char.isDigit, Bool.and_eq_true, decide_eq_true_eq] at h
  have hlo : 48 ≤ c.toNat := h.1
  have hhi : c.toNat ≤ 57 := h.2
  simp only [isSpace, Bool.or_eq_false_iff, Bool.and_eq_false_iff, decide_eq_false_iff_not]
  omega

/-- The last character of a formatted number is a digit. -/
theorem zeroPadded_last {width n : ℕ} (h : (zeroPadded width n).getLast? = some c) :
    c.isDigit = true :=
  isDigit_of_mem_zeroPadded (mem_of_getLast? h)

/-- An id formatted from a counter has no blanks around it. -/
theorem trimSpace_formatted (hpre : ∃ c cs, pre.toList = c :: cs ∧ isSpace c = false)
    (width n : ℕ) : trimSpace (pre ++ ofList (zeroPadded width n)) =
      pre ++ ofList (zeroPadded width n) := by
  obtain ⟨c, cs, hpre, hc⟩ := hpre
  have hne : zeroPadded width n ≠ [] := by
    simp [zeroPadded]
  refine trimSpace_eq_self (fun c' h => ?_) fun c' h => ?_
  · rw [String.toList_append, hpre] at h
    obtain rfl : c = c' := by simpa using h
    exact hc
  · rw [String.toList_append, toList_ofList, getLast?_append_of_ne_nil _ hne] at h
    exact isSpace_of_isDigit (zeroPadded_last h)

/-! ## Lower case -/

theorem lowerRune_of_lower (h : 97 ≤ c.toNat) (h' : c.toNat ≤ 122) : lowerRune c = c := by
  rw [lowerRune, if_neg (by omega), if_neg (by omega)]
  refine dif_neg ?_
  rintro ⟨-, hz⟩
  rw [UInt32.le_iff_toNat_le] at hz
  have : c.val.toNat = c.toNat := rfl
  have : 'Z'.val.toNat = 90 := rfl
  omega

/-- Lower-casing leaves a character as it is or gives a small letter. -/
theorem lowerRune_cases (c : Char) :
    lowerRune c = c ∨ 97 ≤ (lowerRune c).toNat ∧ (lowerRune c).toNat ≤ 122 := by
  unfold lowerRune
  split_ifs
  · exact .inr (by decide)
  · exact .inr (by decide)
  · delta Char.toLower
    split_ifs with hupper
    · right
      simp only [UInt32.le_iff_toNat_le] at hupper
      have hA : 'A'.val.toNat = 65 := rfl
      have hZ : 'Z'.val.toNat = 90 := rfl
      have hadd : (c.val + ('a'.val - 'A'.val)).toNat = c.val.toNat + 32 := by
        rw [UInt32.toNat_add]
        have : ('a'.val - 'A'.val).toNat = 32 := rfl
        omega
      show 97 ≤ (c.val + ('a'.val - 'A'.val)).toNat ∧ (c.val + ('a'.val - 'A'.val)).toNat ≤ 122
      omega
    · exact .inl rfl

theorem lowerRune_lowerRune (c : Char) : lowerRune (lowerRune c) = lowerRune c := by
  rcases lowerRune_cases c with h | h
  · rw [h, h]
  · exact lowerRune_of_lower h.1 h.2

theorem lowerRune_eq_iff {d : Char} (hd : d.toNat < 97) (hself : lowerRune d = d) :
    lowerRune c = d ↔ c = d := by
  refine ⟨fun h => ?_, fun h => h ▸ hself⟩
  rcases lowerRune_cases c with hc | hc
  · rw [← hc, h]
  · rw [h] at hc
    omega

theorem toLower_trimSpace_toLower (s : String) :
    toLower (trimSpace (toLower s)) = trimSpace (toLower s) := by
  apply String.toList_injective
  have hmem : ∀ c ∈ (trimSpace (toLower s)).toList, lowerRune c = c := by
    intro c hc
    rw [trimSpace, toList_ofList] at hc
    have hc := (dropWhile_suffix _).mem (( rdropWhile_prefix _ _).mem hc)
    rw [toLower, toList_ofList] at hc
    obtain ⟨d, -, rfl⟩ := mem_map.mp hc
    exact lowerRune_lowerRune d
  rw [toLower, toList_ofList]
  conv_rhs => rw [← map_id (trimSpace (toLower s)).toList]
  exact map_congr_left hmem

/-! ## Joined texts -/

section Join

variable {sep : String} {c : Char} {items items' : List String}

theorem pieces_join (hsep : sep.toList = [c]) (h : ∀ s ∈ items, s ≠ "" ∧ c ∉ s.toList) :
    ((join sep items).toList.splitOn c).filter (· ≠ []) = items.map toList := by
  have hjoin : (join sep items).toList = [c].intercalate (items.map toList) := by
    fun_induction join sep items <;> simp_all [List.intercalate_cons_cons]
  by_cases hnil : items = []
  · simp [hnil, join]
  · rw [hjoin, splitOn_intercalate c (by simpa using fun s hs => (h s hs).2) (by simpa),
      filter_eq_self]
    simpa using fun s hs => (h s hs).1

/-- Texts without the separator can be told from the joined text. -/
theorem join_injective (hsep : sep.toList = [c]) (h : ∀ s ∈ items, s ≠ "" ∧ c ∉ s.toList)
    (h' : ∀ s ∈ items', s ≠ "" ∧ c ∉ s.toList) (heq : join sep items = join sep items') :
    items = items' := by
  have hpieces := pieces_join hsep h
  rw [heq, pieces_join hsep h'] at hpieces
  exact (map_injective_iff.mpr fun _ _ => toList_inj.mp) hpieces.symm

theorem mem_join (h : c ∈ (join sep items).toList) : c ∈ sep.toList ∨ ∃ s ∈ items, c ∈ s.toList := by
  fun_induction join sep items <;> simp_all
  tauto

end Join

/-! ## Deduplicated lists -/

/-- Trimmed texts, none of them blank and none given twice. -/
structure Deduped (items : List String) : Prop where
  nodup : items.Nodup
  trimmed : ∀ s ∈ items, trimSpace s = s
  nonblank : ∀ s ∈ items, s ≠ ""

theorem deduped_dedupeStrings (items : List String) : Deduped (dedupeStrings items) := by
  rw [dedupeStrings]
  -- what the loop has collected is deduplicated at every turn
  refine foldlRecOn items _ ⟨nodup_nil, by simp, by simp⟩ fun out hout item _ => ?_
  dsimp only
  split_ifs with hskip
  · exact hout
  · simp only [Bool.or_eq_true, decide_eq_true_eq, not_or] at hskip
    refine ⟨?_, fun s hs => ?_, fun s hs => ?_⟩
    · exact nodup_append.mpr ⟨hout.nodup, by simp, by
        rintro a ha b hb rfl
        exact hskip.2 (mem_singleton.mp hb ▸ ha)⟩
    · obtain hs | hs := mem_append.mp hs
      · exact hout.trimmed s hs
      · rw [mem_singleton.mp hs, trimSpace_trimSpace]
    · obtain hs | hs := mem_append.mp hs
      · exact hout.nonblank s hs
      · rw [mem_singleton.mp hs]
        exact hskip.1

theorem Deduped.dedupeStrings_eq {items : List String} (h : Deduped items) :
    dedupeStrings items = items := by
  have hloop : ∀ (rest out : List String), Deduped (out ++ rest) →
      rest.foldl (fun out item =>
        let trimmed := trimSpace item
        if trimmed = "" || trimmed ∈ out then out else out ++ [trimmed]) out = out ++ rest := by
    intro rest
    induction rest with
    | nil => simp
    | cons item rest ih =>
      intro out hall
      have hmem : item ∈ out ++ item :: rest := by simp
      have hnew : item ∉ out := fun hout =>
        (nodup_append.mp hall.nodup).2.2 item hout item mem_cons_self rfl
      rw [foldl_cons]
      simp only [hall.trimmed item hmem, hall.nonblank item hmem, hnew, decide_false,
        Bool.or_self, Bool.false_eq_true]
      rw [append_cons out item rest] at hall ⊢
      exact ih _ hall
  rw [dedupeStrings]
  exact hloop items [] h

theorem Deduped.perm {items sorted : List String} (h : Deduped items) (hperm : sorted.Perm items) :
    Deduped sorted where
  nodup := hperm.nodup_iff.mpr h.nodup
  trimmed := fun s hs => h.trimmed s (hperm.mem_iff.mp hs)
  nonblank := fun s hs => h.nonblank s (hperm.mem_iff.mp hs)

end GoStrings
