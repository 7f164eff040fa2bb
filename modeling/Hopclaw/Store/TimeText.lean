import Mathlib.Algebra.Order.BigOperators.Group.Finset
import Mathlib.Data.String.Basic

/-! # Times as texts

`formatTime` (`store/sqlite.go`) writes a time as SQLite compares it: in UTC, in the layout
`RFC3339Nano`, which drops the zeros at the end of the fraction of a second. -/

namespace Hopclaw.TimeText

open Finset Nat

/-! ## Civil times -/

def isLeap (year : ℕ) : Bool :=
  year % 4 = 0 && (year % 100 ≠ 0 || year % 400 = 0)

def daysInYear (year : ℕ) : ℕ :=
  if isLeap year then 366 else 365

def daysIn (year : ℕ) : ℕ → ℕ
  | 0 => 0
  | 2 => if isLeap year then 29 else 28
  | 4 | 6 | 9 | 11 => 30
  | _ => 31

/-- A time in UTC whose year has four digits. -/
structure CivilTime where
  year : ℕ
  month : ℕ
  day : ℕ
  hour : ℕ := 0
  minute : ℕ := 0
  second : ℕ := 0
  nanosecond : ℕ := 0
  inYears : 1 ≤ year ∧ year ≤ 9999 := by decide
  inYear : 1 ≤ month ∧ month ≤ 12 := by decide
  inMonth : 1 ≤ day ∧ day ≤ daysIn year month := by decide
  inDay : hour < 24 ∧ minute < 60 ∧ second < 60 ∧ nanosecond < 10 ^ 9 := by decide

namespace CivilTime

variable (t : CivilTime)

/-- The time but for the fraction of the second. -/
def toSecond : List ℕ :=
  [t.year, t.month, t.day, t.hour, t.minute, t.second]

/-- `Time.IsZero`. -/
def IsZero : Prop :=
  t.toSecond = [1, 1, 1, 0, 0, 0] ∧ t.nanosecond = 0

instance : Decidable t.IsZero :=
  inferInstanceAs (Decidable (_ ∧ _))

/-- The days since the beginning of the year 0. -/
def days : ℕ :=
  ∑ y ∈ range t.year, daysInYear y + (∑ m ∈ range t.month, daysIn t.year m + (t.day - 1))

/-- The nanoseconds since then, by which `Before` compares. -/
def instant : ℕ :=
  (((t.days * 24 + t.hour) * 60 + t.minute) * 60 + t.second) * 10 ^ 9 + t.nanosecond

end CivilTime

/-! ## The layout -/

/-- The decimal digits of a number, in a width that it fits. -/
def digits : ℕ → ℕ → List Char
  | 0, _ => []
  | w + 1, n => Nat.digitChar (n / 10 ^ w) :: digits w (n % 10 ^ w)

/-- The same without the zeros at the end. -/
def places : ℕ → ℕ → List Char
  | 0, _ => []
  | w + 1, n => if n = 0 then [] else Nat.digitChar (n / 10 ^ w) :: places w (n % 10 ^ w)

def fraction (nanosecond : ℕ) : List Char :=
  if nanosecond = 0 then [] else '.' :: places 9 nanosecond

def formatTime (t : CivilTime) : String :=
  if t.IsZero then ""
  else
    String.ofList (digits 4 t.year ++ '-' :: (digits 2 t.month ++ '-' :: (digits 2 t.day ++ 'T' ::
      (digits 2 t.hour ++ ':' :: (digits 2 t.minute ++ ':' :: (digits 2 t.second ++
        (fraction t.nanosecond ++ ['Z'])))))))

/-! ## The order of texts -/

theorem digitChar_spec {d d' : ℕ} (h : d < 10) (h' : d' < 10) :
    (digitChar d < digitChar d' ↔ d < d') ∧ (digitChar d = digitChar d' ↔ d = d') ∧
      digitChar d < 'Z' := by
  have hall : ∀ d d' : Fin 10, (digitChar d < digitChar d' ↔ d.1 < d'.1) ∧
      (digitChar d = digitChar d' ↔ d.1 = d'.1) ∧ digitChar d < 'Z' := by decide
  exact hall ⟨d, h⟩ ⟨d', h'⟩

theorem lt_iff_div_mod (p n n' : ℕ) :
    n < n' ↔ n / p < n' / p ∨ n / p = n' / p ∧ n % p < n' % p := by
  have hn := div_add_mod n p
  have hn' := div_add_mod n' p
  constructor
  · intro h
    rcases (Nat.div_le_div_right h.le).lt_or_eq with hlt | heq
    · exact .inl hlt
    · rw [heq] at hn
      omega
  · rintro (hlt | ⟨heq, hlt⟩)
    · exact lt_of_div_lt_div hlt
    · rw [heq] at hn
      omega

variable {w n n' : ℕ} {cs cs' : List Char}

theorem leading_lt (h : n < 10 ^ (w + 1)) : n / 10 ^ w < 10 :=
  Nat.div_lt_of_lt_mul (by rwa [← pow_succ])

theorem mod_lt_pow (n w : ℕ) : n % 10 ^ w < 10 ^ w :=
  Nat.mod_lt _ (Nat.pow_pos (by decide))

theorem digits_append_lt_iff (h : n < 10 ^ w) (h' : n' < 10 ^ w) :
    digits w n ++ cs < digits w n' ++ cs' ↔ n < n' ∨ n = n' ∧ cs < cs' := by
  induction w generalizing n n' with
  | zero =>
    obtain rfl : n = 0 := by omega
    obtain rfl : n' = 0 := by omega
    simp [digits]
  | succ w ih =>
    obtain ⟨hlt, heq, -⟩ := digitChar_spec (leading_lt h) (leading_lt h')
    rw [digits, digits, List.cons_append, List.cons_append, List.cons_lt_cons_iff,
      ih (mod_lt_pow n w) (mod_lt_pow n' w), lt_iff_div_mod (10 ^ w) n n',
      ext_div_mod_iff (10 ^ w) n n']
    tauto

/-- One of the texts ends where the other goes on. -/
def Continued (ds ds' : List Char) : Prop :=
  ds ≠ ds' ∧ (ds <+: ds' ∨ ds' <+: ds)

instance (ds ds' : List Char) : Decidable (Continued ds ds') :=
  inferInstanceAs (Decidable (_ ∧ (_ ∨ _)))

/-- Texts that are empty for zero: only what the others have in common with them counts. -/
theorem unless_zero_lt_iff {c c' : Char} (hc : c < 'Z') (hc' : c' < 'Z')
    (hrest : (c :: (cs ++ ['Z']) < c' :: (cs' ++ ['Z']) ↔ n < n') ↔
      ¬ Continued (c :: cs) (c' :: cs')) :
    ((if n = 0 then [] else c :: cs) ++ ['Z'] < (if n' = 0 then [] else c' :: cs') ++ ['Z'] ↔
        n < n') ↔
      ¬ Continued (if n = 0 then [] else c :: cs) (if n' = 0 then [] else c' :: cs') := by
  by_cases h0 : n = 0
  · by_cases h0' : n' = 0
    · simp [h0, h0', Continued]
    · simp [h0, h0', Continued, List.cons_lt_cons_iff, hc'.not_gt, hc'.ne']
  · by_cases h0' : n' = 0
    · simp [h0, h0', Continued, List.cons_lt_cons_iff, hc]
    · simpa [h0, h0'] using hrest

theorem places_lt_iff (h : n < 10 ^ w) (h' : n' < 10 ^ w) :
    (places w n ++ ['Z'] < places w n' ++ ['Z'] ↔ n < n') ↔
      ¬ Continued (places w n) (places w n') := by
  induction w generalizing n n' with
  | zero =>
    obtain rfl : n' = 0 := by omega
    simp [places, Continued]
  | succ w ih =>
    obtain ⟨hlt, heq, hz⟩ := digitChar_spec (leading_lt h) (leading_lt h')
    have hz' := (digitChar_spec (leading_lt h') (leading_lt h)).2.2
    refine unless_zero_lt_iff hz hz' ?_
    rw [List.cons_lt_cons_iff, hlt, lt_iff_div_mod (10 ^ w) n n']
    by_cases hlead : n / 10 ^ w = n' / 10 ^ w
    · simpa [hlead, Continued] using ih (mod_lt_pow n w) (mod_lt_pow n' w)
    · simp [hlead, heq, Continued, eq_comm]

theorem fraction_lt_iff (h : n < 10 ^ 9) (h' : n' < 10 ^ 9) :
    (fraction n ++ ['Z'] < fraction n' ++ ['Z'] ↔ n < n') ↔
      ¬ Continued (fraction n) (fraction n') := by
  refine unless_zero_lt_iff (by decide) (by decide) ?_
  simpa [Continued] using places_lt_iff h h'

/-! ## The order of times -/

theorem sum_range_add_lt {f : ℕ → ℕ} {a b r : ℕ} (h : a < b) (hr : r < f a) :
    ∑ k ∈ range a, f k + r < ∑ k ∈ range b, f k :=
  calc ∑ k ∈ range a, f k + r < ∑ k ∈ range (a + 1), f k := by rw [sum_range_succ]; omega
    _ ≤ ∑ k ∈ range b, f k := sum_le_sum_of_subset (range_mono h)

namespace CivilTime

variable {t t' : CivilTime}

theorem dayOfYear_lt (t : CivilTime) :
    ∑ m ∈ range t.month, daysIn t.year m + (t.day - 1) < daysInYear t.year := by
  have hmonths : ∑ m ∈ range 13, daysIn t.year m = daysInYear t.year := by
    simp only [daysIn, daysInYear]
    split <;> rfl
  rw [← hmonths]
  have := t.inYear
  have := t.inMonth
  exact sum_range_add_lt (by omega) (by omega)

theorem instant_lt_of_toSecond (h : t.toSecond < t'.toSecond) : t.instant < t'.instant := by
  have hday := t.inDay
  have hdays : t.days < t'.days → t.instant < t'.instant := by
    intro h
    simp only [instant]
    omega
  simp only [toSecond, List.cons_lt_cons_iff, List.not_lt_nil, and_false, or_false] at h
  rcases h with hyear | ⟨hyear, hmonth | ⟨hmonth, hdate | ⟨hdate, hclock⟩⟩⟩
  · exact hdays (Nat.lt_add_right _ (sum_range_add_lt hyear t.dayOfYear_lt))
  · refine hdays ?_
    have := t.inMonth
    have := sum_range_add_lt hmonth (f := daysIn t.year) (r := t.day - 1) (by omega)
    simp only [days, ← hyear]
    omega
  · refine hdays ?_
    have := t.inMonth
    simp only [days, ← hyear, ← hmonth]
    omega
  · simp only [instant, days, ← hyear, ← hmonth]
    omega

theorem instant_lt_iff : t.instant < t'.instant ↔
    t.toSecond < t'.toSecond ∨ t.toSecond = t'.toSecond ∧ t.nanosecond < t'.nanosecond := by
  rcases lt_trichotomy t.toSecond t'.toSecond with h | h | h
  · exact iff_of_true (instant_lt_of_toSecond h) (.inl h)
  · have hns : t.instant < t'.instant ↔ t.nanosecond < t'.nanosecond := by
      simp only [toSecond, List.cons.injEq] at h
      simp only [instant, days, h]
      omega
    simp [h, hns]
  · refine iff_of_false (instant_lt_of_toSecond h).not_gt ?_
    rintro (h' | ⟨h', -⟩)
    · exact lt_asymm h h'
    · exact h.ne h'.symm

end CivilTime

open CivilTime

variable {t t' : CivilTime}

theorem formatTime_lt_iff (h : ¬ t.IsZero) (h' : ¬ t'.IsZero) : formatTime t < formatTime t' ↔
    t.toSecond < t'.toSecond ∨
      t.toSecond = t'.toSecond ∧
        fraction t.nanosecond ++ ['Z'] < fraction t'.nanosecond ++ ['Z'] := by
  have hdays : ∀ t : CivilTime, t.day < 10 ^ 2 := fun t => by
    have hmonth : daysIn t.year t.month ≤ 31 := by
      unfold daysIn
      split <;> (try split) <;> decide
    have := t.inMonth
    omega
  have := t.inYears
  have := t'.inYears
  have := t.inYear
  have := t'.inYear
  have := t.inDay
  have := t'.inDay
  rw [formatTime, formatTime, if_neg h, if_neg h', String.lt_iff_toList_lt, String.toList_ofList,
    String.toList_ofList]
  simp (disch := omega) only [digits_append_lt_iff, digits_append_lt_iff (hdays t) (hdays t'),
    List.cons_lt_cons_iff, lt_irrefl, false_or, true_and, toSecond, List.cons.injEq, and_true,
    and_false, or_false, and_or_left, or_assoc, and_assoc]

/-- Two times are in order as texts exactly as they are in time, unless they lie in one second and
    one of their fractions goes on where the other ends: then they are in reverse order. -/
theorem text_order_iff (t t' : CivilTime) (h : ¬ t.IsZero) (h' : ¬ t'.IsZero) :
    (formatTime t < formatTime t' ↔ t.instant < t'.instant) ↔
      (t.toSecond = t'.toSecond → ¬ Continued (fraction t.nanosecond) (fraction t'.nanosecond)) := by
  rw [formatTime_lt_iff h h', instant_lt_iff]
  by_cases hsame : t.toSecond = t'.toSecond
  · simp only [hsame, lt_irrefl, true_and, false_or, forall_const]
    exact fraction_lt_iff t.inDay.2.2.2 t'.inDay.2.2.2
  · simp [hsame]

def fullSecond : CivilTime :=
  { year := 2024, month := 2, day := 29 }

def halfSecond : CivilTime :=
  { year := 2024, month := 2, day := 29, nanosecond := 500000000 }

def nextSecond : CivilTime :=
  { year := 2024, month := 2, day := 29, second := 1 }

theorem text_order_of_next_second :
    formatTime halfSecond < formatTime nextSecond ↔ halfSecond.instant < nextSecond.instant :=
  (text_order_iff halfSecond nextSecond (by decide) (by decide)).mpr (by decide)

/-- The full second is before the half one, but comes after it as a text. -/
theorem full_second_sorts_last :
    fullSecond.instant < halfSecond.instant ∧
      formatTime fullSecond = "2024-02-29T00:00:00Z" ∧
      formatTime halfSecond = "2024-02-29T00:00:00.5Z" ∧
      formatTime halfSecond < formatTime fullSecond :=
  ⟨instant_lt_iff.mpr (by decide), by decide +kernel, by decide +kernel, by decide +kernel⟩

end Hopclaw.TimeText
