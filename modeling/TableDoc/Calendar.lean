/-!
# Calendar dates

The Gregorian calendar, in force for every year.
-/

namespace TableDoc.Calendar

/-- The year has a 29th of February. -/
def isLeap (year : Nat) : Bool := year % 4 = 0 && (year % 100 ≠ 0 || year % 400 = 0)

/-- The number of days of a month; other numbers than those of months have none. -/
def daysIn (year month : Nat) : Nat :=
  match month with
  | 1 | 3 | 5 | 7 | 8 | 10 | 12 => 31
  | 4 | 6 | 9 | 11 => 30
  | 2 => if isLeap year then 29 else 28
  | _ => 0

/-- The day exists. -/
def isDate (year month day : Nat) : Bool := 1 ≤ day && day ≤ daysIn year month

end TableDoc.Calendar
