import CronSchedule.Pattern.Compile

/-!
# Presets

Patterns for common schedules, each under a name.  Names are found without regard to
case, and a dash may stand for an underscore.
-/

namespace CronSchedule

open Text

/-- The presets in the order in which they are listed. -/
def presets : List (String × String) :=
  [("yearly", "0 0 1 1 *"), ("annually", "0 0 1 1 *"), ("monthly", "0 0 1 * *"),
   ("weekly", "0 0 * * 0"), ("daily", "0 0 * * *"), ("midnight", "0 0 * * *"),
   ("hourly", "0 * * * *"), ("every_minute", "* * * * *"), ("every_second", "* * * * * *"),
   ("weekdays_9am", "0 9 * * MON-FRI"), ("weekdays_6pm", "0 18 * * MON-FRI"),
   ("business_open_close", "0 9 * * 1-5 | 0 18 * * 1-5"),
   ("business_hours_15min", "*/15 9-17 * * 1-5"), ("first_of_month", "0 6 1 * *"),
   ("last_of_month", "0 6 L * *"), ("last_friday", "0 17 * * 5L"),
   ("quarterly", "0 0 1 JAN,APR,JUL,OCT *"), ("end_of_quarter", "0 0 L 3,6,9,12 *")]

/-- The name under which a preset is looked up. -/
def presetKey (name : String) : List Char :=
  (lower name.toList).map fun c => if c = '-' then '_' else c

/-- The pattern of a preset. -/
def Pattern.preset? (name : String) : Option Pattern :=
  match presets.find? fun entry => entry.1.toList == presetKey name with
  | none => none
  | some entry => (Pattern.compile entry.2).toOption

end CronSchedule
