import CronSchedule.Calendar.Date
import CronSchedule.Calendar.Reading
import CronSchedule.Calendar.WallTime
import CronSchedule.Decimal.Binary64
import CronSchedule.Decimal.Nearest
import CronSchedule.Decimal.Shortest
import CronSchedule.Enumerate.Next
import CronSchedule.Enumerate.Scan
import CronSchedule.Enumerate.Window
import CronSchedule.Error
import CronSchedule.Fault
import CronSchedule.Field.Basic
import CronSchedule.Field.Compile
import CronSchedule.Field.Problem
import CronSchedule.Field.Written
import CronSchedule.Matcher.Basic
import CronSchedule.Matcher.Equality
import CronSchedule.Matcher.ValueSet
import CronSchedule.Pattern.Basic
import CronSchedule.Pattern.Compile
import CronSchedule.Pattern.Match
import CronSchedule.Pattern.Preset
import CronSchedule.Pattern.Validity
import CronSchedule.Proofs.Calendar.Dates
import CronSchedule.Proofs.Calendar.LastDays
import CronSchedule.Proofs.Calendar.Reading
import CronSchedule.Proofs.Enumerate.Aware
import CronSchedule.Proofs.Enumerate.Complete
import CronSchedule.Proofs.Enumerate.Earliest
import CronSchedule.Proofs.Enumerate.FixedOffset
import CronSchedule.Proofs.Enumerate.Granularity
import CronSchedule.Proofs.Enumerate.Horizon
import CronSchedule.Proofs.Enumerate.LastDay
import CronSchedule.Proofs.Enumerate.Lockstep
import CronSchedule.Proofs.Enumerate.Merge
import CronSchedule.Proofs.Enumerate.Naive
import CronSchedule.Proofs.Enumerate.Next
import CronSchedule.Proofs.Enumerate.NextDate
import CronSchedule.Proofs.Enumerate.NextNaive
import CronSchedule.Proofs.Enumerate.Scan
import CronSchedule.Proofs.Enumerate.Sound
import CronSchedule.Proofs.Enumerate.Ticks
import CronSchedule.Proofs.Enumerate.Walk
import CronSchedule.Proofs.Enumerate.Window
import CronSchedule.Proofs.Grammar.Expression
import CronSchedule.Proofs.Grammar.Field
import CronSchedule.Proofs.Grammar.FirstFault
import CronSchedule.Proofs.Grammar.Joined
import CronSchedule.Proofs.Grammar.NormalForm
import CronSchedule.Proofs.Grammar.Reader
import CronSchedule.Proofs.Grammar.Slots
import CronSchedule.Proofs.Grammar.Spelling
import CronSchedule.Proofs.Grammar.Tokens
import CronSchedule.Proofs.Matcher.Equality
import CronSchedule.Proofs.Meaning.Expression
import CronSchedule.Proofs.Meaning.Field
import CronSchedule.Proofs.Meaning.Item
import CronSchedule.Proofs.Meaning.Span
import CronSchedule.Proofs.Pattern.Answer
import CronSchedule.Proofs.Pattern.Recurrence
import CronSchedule.Proofs.Session.Accepted
import CronSchedule.Proofs.Session.Advance
import CronSchedule.Proofs.Session.Ahead
import CronSchedule.Proofs.Session.Capped
import CronSchedule.Proofs.Session.EmptyWindow
import CronSchedule.Proofs.Session.Ending
import CronSchedule.Proofs.Session.FarHorizon
import CronSchedule.Proofs.Session.Genuine
import CronSchedule.Proofs.Session.History
import CronSchedule.Proofs.Session.InForce
import CronSchedule.Proofs.Session.Influence
import CronSchedule.Proofs.Session.Later
import CronSchedule.Proofs.Session.Lifecycle
import CronSchedule.Proofs.Session.Lookup
import CronSchedule.Proofs.Session.Overridden
import CronSchedule.Proofs.Session.Rejected
import CronSchedule.Proofs.Session.Run
import CronSchedule.Proofs.Session.SameInstant
import CronSchedule.Proofs.Session.Seamless
import CronSchedule.Proofs.Session.Setback
import CronSchedule.Proofs.Session.Settled
import CronSchedule.Proofs.Settings.Accepted
import CronSchedule.Proofs.Settings.Complaints
import CronSchedule.Proofs.Settings.Files
import CronSchedule.Proofs.Settings.Keys
import CronSchedule.Proofs.Settings.Precedence
import CronSchedule.Proofs.Settings.Reread
import CronSchedule.Proofs.Settings.Section
import CronSchedule.Proofs.Text.Capitals
import CronSchedule.Proofs.Text.Cut
import CronSchedule.Proofs.Text.Integers
import CronSchedule.Proofs.Text.Letters
import CronSchedule.Proofs.Text.Runs
import CronSchedule.Proofs.Text.Words
import CronSchedule.Proofs.Zone.Changes
import CronSchedule.Proofs.Zone.Clock
import CronSchedule.Proofs.Zone.Dates
import CronSchedule.Proofs.Zone.Folds
import CronSchedule.Proofs.Zone.Forward
import CronSchedule.Proofs.Zone.Midnights
import CronSchedule.Proofs.Zone.Steady
import CronSchedule.Session.Basic
import CronSchedule.Session.Cursor
import CronSchedule.Session.Matching
import CronSchedule.Session.Request
import CronSchedule.Settings.Basic
import CronSchedule.Settings.Coerce
import CronSchedule.Settings.Entries
import CronSchedule.Settings.Files
import CronSchedule.Settings.Sources
import CronSchedule.Settings.Value
import CronSchedule.Text.Blank
import CronSchedule.Text.CodeRange
import CronSchedule.Text.Digit
import CronSchedule.Text.Numeral
import CronSchedule.Text.Pieces
import CronSchedule.Text.Printable
import CronSchedule.Text.Quoted
import CronSchedule.Text.Symbol
import CronSchedule.Text.Upper
import CronSchedule.Text.Upper.Table
import CronSchedule.Verdict
import CronSchedule.Yaml.Bracketed
import CronSchedule.Yaml.Document
import CronSchedule.Yaml.Layout
import CronSchedule.Yaml.Lexer
import CronSchedule.Yaml.Node
import CronSchedule.Yaml.PlainScalar
import CronSchedule.Yaml.QuotedScalar
import CronSchedule.Yaml.Refusal
import CronSchedule.Yaml.Scalar
import CronSchedule.Yaml.Timestamp
import CronSchedule.Yaml.Token
import CronSchedule.Zone.DateTime
import CronSchedule.Zone.Instant
import CronSchedule.Zone.Rules
import CronSchedule.Zone.TimeZone
