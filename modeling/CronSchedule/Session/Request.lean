import CronSchedule.Session.Cursor

/-!
# Requests

The calls of a session as data, so that a session is a list of requests.

* `Request` — one call with its arguments, `Answer` — what a call gives back;
* `Request.call` — the call;
* `Session.respond` — the answer to one request, the warnings it gave rise to and the
  session behind it; `Session.run` — the answers to several in order.

A request that fails does not end the session.
-/

namespace CronSchedule

/-- A call in a session, with its arguments. -/
inductive Request where
  | settings
  | configure (base : Option Settings) (overrides : Entries String Value)
  | resetSettings
  | setEnvironment (environment : Environment)
  | zone (ref : Option ZoneRef)
  | wallClock (instant : Instant) (ref : Option ZoneRef)
  | accepts (p : Pattern) (instant : Instant) (ref : Option ZoneRef) (matchSeconds : Option Bool)
  | acceptsOwn (p : Pattern) (instant : Instant)
  | dates (p : Pattern) (start : Instant) (stop : Option Instant) (count : Int)
      (matchSeconds : Option Bool) (ref : Option ZoneRef)
  | firstOfYear (p : Pattern) (start : Instant) (matchSeconds : Option Bool)
  | next (p : Pattern) (after : DateTime) (matchSeconds : Option Bool)
  | openCursor (name : String) (p : Pattern) (after : DateTime) (limit : Option Int)
      (matchSeconds : Option Bool)
  | advance (name : String)
  | drain (name : String)
  | remaining (name : String)

/-- What a call gives back. -/
inductive Answer where
  | nothing
  | settings (settings : Settings)
  | zone (choice : ZoneChoice)
  | verdict (accepted : Bool)
  | date (date : Option DateTime)
  | dates (dates : List DateTime)
  | remaining (count : Option Nat)

/-- The call that a request asks for. -/
def Request.call : Request → Call Answer
  | settings => .settings <$> Call.settings
  | configure base overrides => .settings <$> Call.configure base overrides
  | resetSettings => do Call.resetSettings; return .nothing
  | setEnvironment environment => do Call.setEnvironment environment; return .nothing
  | zone ref => .zone <$> Call.zone ref
  | wallClock instant ref => return .date (some (← Call.wallClock instant ref))
  | accepts p instant ref matchSeconds => .verdict <$> Call.accepts p instant ref matchSeconds
  | acceptsOwn p instant => .verdict <$> Call.acceptsOwn p instant
  | dates p start stop count matchSeconds ref =>
    .dates <$> Call.dates p start stop count matchSeconds ref
  | firstOfYear p start matchSeconds => .date <$> Call.firstOfYear p start matchSeconds
  | next p after matchSeconds => .date <$> Call.next p after matchSeconds
  | openCursor name p after limit matchSeconds =>
    .remaining <$> Call.openCursor name p after limit matchSeconds
  | advance name => return .date (some (← Call.advance name))
  | drain name => .dates <$> Call.drain name
  | remaining name => .remaining <$> Call.remaining name

/-- The outcome of a request. -/
structure Response where
  result : Except Error Answer
  warnings : List CapWarning

namespace Session

/-- The response to a request, and the session behind it. -/
def respond (host : Host) (s : Session) (r : Request) : Response × Session :=
  let (result, behind) := Call.outcome r.call host { s with warnings := [] }
  (⟨result, behind.warnings⟩, { behind with warnings := [] })

/-- The responses to requests in order, and the session behind them. -/
def run (host : Host) (s : Session) : List Request → List Response × Session
  | [] => ([], s)
  | r :: rest =>
    let (response, s) := s.respond host r
    let (responses, s) := s.run host rest
    (response :: responses, s)

end Session

end CronSchedule
