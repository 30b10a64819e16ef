/-!
# Failures without a text of their own

Some calls fail because a number cannot be represented or a value is of the wrong
kind.  Such a failure is named here by its cause; it carries no message.
-/

namespace CronSchedule

/-- Why a call fails without a message. -/
inductive Fault where
  /-- a reading before year 1 or after year 9999, or a span no calendar holds -/
  | beyondCalendar
  /-- a year outside 1 to 9999 was asked for by number -/
  | noSuchYear
  /-- a timestamp in a year that the clock cannot count -/
  | beyondClock
  /-- the float that is no number stands for no instant -/
  | notANumber
  /-- a numeral has more digits than numerals may have, or none of place value -/
  | unreadableNumeral
  /-- an integer has more digits than a numeral that is written may have -/
  | unwritableNumeral
  /-- a number is too large for the place it is put in -/
  | tooLarge
  /-- a code point beyond the code space -/
  | noSuchCode
  /-- a date, a time of day or an offset that no clock shows -/
  | noSuchReading
  /-- a value of the wrong kind -/
  | wrongKind
  /-- a month outside 1 to 12 has no length -/
  | noSuchMonth
  /-- an index outside the list of alternatives -/
  | noSuchAlternative
  /-- no cursor is kept under the name -/
  | noSuchCursor
  /-- a cursor has no further result -/
  | exhausted
  /-- a path, or a name in it, that is longer than any may be -/
  | nameTooLong
  /-- a directory where a file is read -/
  | isDirectory
  /-- a file that is not UTF-8 text -/
  | notUtf8
deriving DecidableEq, Repr

end CronSchedule
