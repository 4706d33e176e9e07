import Mathlib
import TableDoc.Calendar
import TableDoc.Proofs.Decimal

/-!
# Dates

The calendar is the proleptic Gregorian one of the standard library (`isDate_iff`). `Spells` says
how a date is written in four, two and two digits; the texts of two dates are in the order of the
dates (`compare_of_spells`).
-/

namespace TableDoc.Calendar

open Decimal (ofDigits)
open Std.Time

variable {year month day : Nat}

/-! ## The days of the calendar -/

theorem isLeap_eq (year : Nat) : Year.Offset.isLeap (year : ℤ) = isLeap year := by
  have hmod (n : Nat) : (year : ℤ).tmod n = 0 ↔ year % n = 0 := by
    rw [← Int.ofNat_tmod]
    exact Int.natCast_eq_zero
  rw [Bool.eq_iff_iff]
  simp only [Year.Offset.isLeap, isLeap, decide_eq_true_eq, Bool.and_eq_true, Bool.or_eq_true]
  exact and_congr (hmod 4) (or_congr (not_congr (hmod 100)) (hmod 400))

theorem days_eq (year : Nat) (month : Month.Ordinal) :
    (Month.Ordinal.days (isLeap year) month).val = daysIn year month.val.toNat := by
  obtain ⟨m, hm, hm'⟩ := month
  interval_cases m
  case «2» =>
    change (if isLeap year then (29 : Day.Ordinal) else 28).val =
      ((if isLeap year then 29 else 28 : Nat) : ℤ)
    cases isLeap year <;> rfl
  all_goals
    cases isLeap year <;> rfl

/-- The days of the calendar are the dates of the proleptic Gregorian calendar. -/
theorem isDate_iff : isDate year month day ↔
    ∃ date : PlainDate, date.year = (year : ℤ) ∧ date.month.val = month ∧ date.day.val = day := by
  have hdays (m : Month.Ordinal) (hm : m.val = month) :
      (Month.Ordinal.days (Year.Offset.isLeap (year : ℤ)) m).val = daysIn year month := by
    rw [isLeap_eq, days_eq, hm, Int.toNat_natCast]
  rw [isDate, Bool.and_eq_true, decide_eq_true_eq, decide_eq_true_eq]
  constructor
  · rintro ⟨hday, hlast⟩
    have hmonth : 1 ≤ month ∧ month ≤ 12 := by
      by_contra hmonth
      have hnone : daysIn year month = 0 := by
        rw [daysIn] <;> omega
      omega
    let m : Month.Ordinal := ⟨month, by omega, by omega⟩
    have hbound := (Month.Ordinal.days (Year.Offset.isLeap (year : ℤ)) m).property.2
    have hvalid := hdays m rfl
    refine ⟨⟨(year : ℤ), m, ⟨day, by omega, by omega⟩, ?_⟩, rfl, rfl, rfl⟩
    change (day : ℤ) ≤ (Month.Ordinal.days (Year.Offset.isLeap (year : ℤ)) m).val
    omega
  · rintro ⟨⟨y, m, d, hvalid⟩, hyear, hm, hd⟩
    dsimp only at hyear hm hd
    subst hyear
    have hlast : d.val ≤ (Month.Ordinal.days (Year.Offset.isLeap (year : ℤ)) m).val := hvalid
    rw [hdays m hm] at hlast
    have hfirst := d.property.1
    omega

/-! ## Dates as texts -/

/-- So many digits, all of ASCII. -/
structure Digits (n : Nat) (cs : List Char) : Prop where
  length : cs.length = n
  isDigit : ∀ c ∈ cs, c.isDigit

/-- The text is the year of a date in four digits, its month in two and its day in two. -/
inductive Spells : List Char → PlainDate → Prop
  | intro {date : PlainDate} : Digits 4 y → Digits 2 m → Digits 2 d →
    date.year = (ofDigits y : ℤ) → date.month.val = ofDigits m → date.day.val = ofDigits d →
    Spells (y ++ '-' :: (m ++ '-' :: d)) date

variable {text text' : List Char} {date date' : PlainDate}

/-- Texts of equally many digits are ordered as their numbers. -/
theorem Digits.compare {n : Nat} {cs ds : List Char} (hcs : Digits n cs) (hds : Digits n ds) :
    Ord.compare (String.ofList cs) (.ofList ds) = Ord.compare (ofDigits cs : ℤ) (ofDigits ds) := by
  rw [← Decimal.compare_ofDigits hcs.isDigit hds.isDigit (hcs.length.trans hds.length.symm),
    ← cmp_eq_compare, ← cmp_eq_compare]
  exact (Nat.strictMono_cast.cmp_map_eq _ _).symm

/-- The texts of dates are in the order of the dates. -/
theorem compare_of_spells (h : Spells text date) (h' : Spells text' date') :
    compare (String.ofList text) (.ofList text') = compare date date' := by
  obtain ⟨hy, hm, hd, hyear, hmonth, hday⟩ := h
  obtain ⟨hy', hm', hd', hyear', hmonth', hday'⟩ := h'
  have hdate : compare date date' = (compare (date.year : ℤ) date'.year).then
      ((compare date.month.val date'.month.val).then (compare date.day.val date'.day.val)) := rfl
  have hdash (cs ds : List Char) : compare (String.ofList ('-' :: cs)) (.ofList ('-' :: ds)) =
      compare (String.ofList cs) (.ofList ds) := by
    rw [Text.compare_cons, compare_eq_iff_eq.2 rfl, Ordering.eq_then]
  rw [Text.compare_append (hy.length.trans hy'.length.symm), hdash,
    Text.compare_append (hm.length.trans hm'.length.symm), hdash, hy.compare hy', hm.compare hm',
    hd.compare hd', hdate, hyear, hmonth, hday, hyear', hmonth', hday']

end TableDoc.Calendar
