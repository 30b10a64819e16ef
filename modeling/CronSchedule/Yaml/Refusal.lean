import CronSchedule.Error

/-!
# Texts without a value

A text is refused because it breaks the rules of the notation, or because something that it
asks for cannot be made.

* `Refusal` — why a text has no value;
* `Refusal.error` — the error of a file that holds such a text.
-/

namespace CronSchedule.Yaml

/-- Why a text has no value. -/
inductive Refusal where
  /-- the text breaks the rules of the notation, or asks for what a value cannot hold -/
  | malformed
  /-- a date or a time that no clock shows -/
  | noSuchReading
  /-- a numeral without digits, or with more than are read -/
  | unreadableNumeral
  /-- a number too large for the place it is put in -/
  | tooLarge
  /-- a code point beyond the code space -/
  | noSuchCode
deriving DecidableEq, Repr

/-- The error of a file that holds a text without a value. -/
def Refusal.error (file : String) : Refusal → Error
  | malformed => .settings (.fileNotParsed file)
  | noSuchReading => .fault .noSuchReading
  | unreadableNumeral => .fault .unreadableNumeral
  | tooLarge => .fault .tooLarge
  | noSuchCode => .fault .noSuchCode

end CronSchedule.Yaml
