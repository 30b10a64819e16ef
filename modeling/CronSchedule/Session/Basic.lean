import CronSchedule.Enumerate.Next
import CronSchedule.Settings.Sources

/-!
# Sessions

A session is a run of calls that share settings, environment variables and cursors.

* `Host` — what does not change in a session: the zones and the files;
* `Session` — what does;
* `Call` — a call: it reads the host, changes the session and may fail.  A failing call
  keeps the changes made before the failure;
* `Call.settings`, `Call.configure`, `Call.resetSettings`, `Call.setEnvironment` — the
  calls about settings.

Settings are loaded when a call first needs them and kept until they are replaced or
forgotten; a load that fails keeps nothing.
-/

namespace CronSchedule

/-- What a session finds and leaves as it is. -/
structure Host where
  zones : ZoneTable := []
  files : FileSource := {}

/-- The state of a session. -/
structure Session where
  /-- the settings in force, none when they are not loaded -/
  settings : Option Settings := none
  environment : Environment := []
  cursors : Entries String Cursor := []
  /-- the warnings that have not been collected, in order -/
  warnings : List CapWarning := []

/-- A call in a session. -/
abbrev Call := ReaderT Host (ExceptT Error (StateM Session))

namespace Call

/-- The outcome of a call, and the session behind it. -/
def outcome {α : Type} (c : Call α) (host : Host) (s : Session) : Except Error α × Session :=
  (c.run host).run.run s

/-- A result that is known without the session. -/
def ofResult {α : Type} : Except Error α → Call α
  | .ok a => pure a
  | .error e => throw e

/-- A warning to be collected. -/
def warn : Option CapWarning → Call Unit
  | none => pure ()
  | some w => modify fun s => { s with warnings := s.warnings ++ [w] }

@[simp] theorem outcome_pure {α : Type} (a : α) (host : Host) (s : Session) :
    outcome (pure a) host s = (.ok a, s) := rfl

@[simp] theorem outcome_throw {α : Type} (e : Error) (host : Host) (s : Session) :
    outcome (throw e : Call α) host s = (.error e, s) := rfl

@[simp] theorem outcome_ofResult {α : Type} (r : Except Error α) (host : Host) (s : Session) :
    outcome (ofResult r) host s = (r, s) := by cases r <;> rfl

@[simp] theorem outcome_get (host : Host) (s : Session) : outcome get host s = (.ok s, s) := rfl

@[simp] theorem outcome_read (host : Host) (s : Session) : outcome read host s = (.ok host, s) :=
  rfl

@[simp] theorem outcome_modify (f : Session → Session) (host : Host) (s : Session) :
    outcome (modify f) host s = (.ok (), f s) := rfl

@[simp] theorem outcome_warn (w : Option CapWarning) (host : Host) (s : Session) :
    outcome (warn w) host s = (.ok (), { s with warnings := s.warnings ++ w.toList }) := by
  cases w with
  | none => simp [warn]
  | some w => rfl

/-- What follows a call sees the session it leaves, and does not run when it fails. -/
theorem outcome_bind {α β : Type} (c : Call α) (f : α → Call β) (host : Host) (s : Session) :
    outcome (c >>= f) host s =
      match outcome c host s with
      | (.ok a, s') => outcome (f a) host s'
      | (.error e, s') => (.error e, s') := by
  simp only [outcome, ReaderT.run_bind, ExceptT.run_bind, StateT.run_bind]
  change (match (c.run host).run.run s with
    | (r, s') => _) = _
  cases h : (c.run host).run.run s with
  | mk r s' => cases r <;> rfl

/-! ### Settings -/

/-- The settings in force, loaded if need be. -/
def settings : Call Settings := do
  match (← get).settings with
  | some settings => return settings
  | none =>
    let settings ← ofResult (Settings.load (← read).files none (← get).environment)
    modify fun s => { s with settings := some settings }
    return settings

theorem outcome_settings_of_some {inForce : Settings} {s : Session}
    (h : s.settings = some inForce) (host : Host) :
    outcome settings host s = (.ok inForce, s) := by
  simp [settings, outcome_bind, h]

theorem outcome_settings_of_none {s : Session} (h : s.settings = none) (host : Host) :
    outcome settings host s =
      match Settings.load host.files none s.environment with
      | .ok loaded => (.ok loaded, { s with settings := some loaded })
      | .error e => (.error e, s) := by
  simp only [settings, outcome_bind, outcome_get, h, outcome_read, outcome_ofResult]
  cases Settings.load host.files none s.environment <;> rfl

/-- The name of the base among the arguments of `configure`, which no override may have. -/
def baseName : String := "settings"

/-- Replaces the settings in force: by those given, or else those in force, with
overrides written over them. -/
def configure (base : Option Settings) (overrides : Entries String Value) : Call Settings := do
  if (Entries.get? overrides baseName).isSome then throw (.fault .wrongKind)
  let base ← match base with
    | some settings => pure settings
    | none => settings
  let settings ←
    if overrides.isEmpty then pure base
    else ofResult (Settings.ofEntries (underNames (Entries.merge base.entries overrides)))
  modify fun s => { s with settings := some settings }
  return settings

/-- Forgets the settings in force. -/
def resetSettings : Call Unit := modify fun s => { s with settings := none }

/-- Replaces the variables of the environment. -/
def setEnvironment (environment : Environment) : Call Unit :=
  modify fun s => { s with environment := environment }

end Call

end CronSchedule
