import TableDoc.Calendar
import TableDoc.Cell

/-!
# Dates of the calendar

The reader of dates that the program runs with. It takes the digits of ASCII only, and the days of
the Gregorian calendar.
-/

namespace TableDoc.Cell

/-- The text is a day of the calendar. -/
def isCalendarDate : List Char → Bool
  | [y₁, y₂, y₃, y₄, '-', m₁, m₂, '-', d₁, d₂] =>
    [y₁, y₂, y₃, y₄, m₁, m₂, d₁, d₂].all Char.isDigit &&
      Calendar.isDate (Decimal.ofDigits [y₁, y₂, y₃, y₄]) (Decimal.ofDigits [m₁, m₂])
        (Decimal.ofDigits [d₁, d₂])
  | _ => false

/-- Dates are days of the calendar. -/
instance : DateReader := ⟨isCalendarDate⟩

end TableDoc.Cell
