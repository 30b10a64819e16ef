import CronSchedule.Proofs.Session.Advance
import CronSchedule.Session.Request

/-!
# What a request leaves behind

Three parts of a session outlive a request, and each has few causes to change: settings change
when they are replaced or forgotten, and when a request that needs them finds none in force; the
environment changes when it is set; a cursor changes with the requests on its name alone.

* `Request.needsSettings` — whether a request looks settings up;
* `Request.Leaves` — what is in each part behind a request, `Request.leaves` — of every request;
* `Event` — a request at its place in a session, `Session.history` — the events of a run.
-/

namespace CronSchedule

/-! ### Causes of change -/

namespace Request

/-- The name of the cursor that a request is about. -/
def cursorName? : Request → Option String
  | openCursor name _ _ _ _ | advance name | drain name | remaining name => some name
  | _ => none

/-- The environment that a request sets. -/
def environment? : Request → Option Environment
  | setEnvironment environment => some environment
  | _ => none

/-- Whether a request forgets the settings in force. -/
def forgets : Request → Bool
  | resetSettings => true
  | _ => false

/-- The settings that a request puts in force by itself. -/
def configured? : Request → Except Error Answer → Option Settings
  | configure _ _, .ok (.settings new) => some new
  | _, _ => none

/-- Whether a request looks settings up, which can be told before it is made. -/
def needsSettings (s : Session) : Request → Bool
  | settings => true
  | configure base overrides => base.isNone && (Entries.get? overrides Call.baseName).isNone
  | zone ref => ref.isNone
  | wallClock instant ref => instant.isTimestamp && ref.isNone
  | accepts _ instant ref matchSeconds =>
    matchSeconds.isNone || instant.isTimestamp && ref.isNone
  | acceptsOwn _ instant => instant.isTimestamp
  | dates _ start stop count _ _ => (Window.check start stop count).isOk
  | firstOfYear _ start _ => (Window.check start none 1).isOk
  | next p after matchSeconds => (after.firstTickAfter? (p.searchesSeconds matchSeconds)).isSome
  | advance name | drain name => (Entries.get? s.cursors name).any Cursor.needsSettings
  | resetSettings | setEnvironment _ | openCursor _ _ _ _ _ | remaining _ => false

/-- What a request leaves behind, given its result. -/
structure Leaves (r : Request) (host : Host) (s : Session) (result : Except Error Answer)
    (behind : Session) : Prop where
  settings : behind.settings =
    if r.forgets then none
    else (r.configured? result).or
      (s.settings.or (if r.needsSettings s then s.loaded? host else none))
  environment : behind.environment = r.environment?.getD s.environment
  cursors : ∀ name, r.cursorName? ≠ some name →
    Entries.get? behind.cursors name = Entries.get? s.cursors name

end Request

namespace Call

variable {host : Host} {s : Session} {name : String}

/-! ### Configuring -/

/-- A base with overrides written over it. -/
def overridden (base : Settings) (overrides : Entries String Value) : Except Error Settings :=
  if overrides.isEmpty then .ok base
  else Settings.ofEntries (underNames (Entries.merge base.entries overrides))

/-- Puts settings in force, where there are any. -/
def putInForce (result : Except Error Settings) : Call Settings := do
  let new ← ofResult result
  modify fun s => { s with settings := some new }
  return new

theorem outcome_putInForce (result : Except Error Settings) (host : Host) (s : Session) :
    outcome (putInForce result) host s =
      (result, { s with settings := result.toOption.or s.settings }) := by
  rw [putInForce, outcome_bind, outcome_ofResult]
  cases result <;> rfl

theorem configure_eq {overrides : Entries String Value}
    (hname : Entries.get? overrides baseName = none) (base : Option Settings) :
    configure base overrides =
      base.elim settings pure >>= fun base => putInForce (overridden base overrides) := by
  unfold configure overridden
  rw [hname]
  cases base <;> cases overrides <;> rfl

/-- What is configured is in force; a call that fails leaves the settings that it has looked
up. -/
theorem configure_behind (host : Host) (s : Session) (base : Option Settings)
    (overrides : Entries String Value) :
    (outcome (configure base overrides) host s).2 =
      { s with
        settings := (outcome (configure base overrides) host s).1.toOption.or
          (s.settings.or (if base.isNone && (Entries.get? overrides baseName).isNone then
            s.loaded? host else none)) } := by
  cases hname : Entries.get? overrides baseName with
  | some v => simp [configure, hname, outcome_bind, Except.toOption]
  | none =>
    rw [configure_eq hname, outcome_bind]
    cases base with
    | some base =>
      simp only [Option.elim_some, outcome_pure, outcome_putInForce]
      simp
    | none =>
      cases hs : s.settings with
      | some inForce =>
        simp only [Option.elim_none, outcome_settings_of_some hs, outcome_putInForce]
        simp [hs]
      | none =>
        rw [Option.elim_none, outcome_settings_of_none hs]
        cases hload : Settings.load host.files none s.environment with
        | error e => simp [Session.loaded?, hload, Except.toOption, ← hs]
        | ok loaded =>
          simp only [outcome_putInForce]
          simp [Session.loaded?, hload, Except.toOption]

/-! ### Advancing and draining -/

/-- Behind a call on the cursor under a name: settings are as given, and the environment and
every other cursor are as before. -/
structure OnlyCursor (name : String) (settings : Option Settings) (s behind : Session) : Prop where
  settings : behind.settings = settings
  environment : behind.environment = s.environment
  cursors : ∀ other, other ≠ name →
    Entries.get? behind.cursors other = Entries.get? s.cursors other

theorem OnlyCursor.trans {settings settings' : Option Settings} {s₁ s₂ : Session}
    (h : OnlyCursor name settings s s₁) (h' : OnlyCursor name settings' s₁ s₂) :
    OnlyCursor name settings' s s₂ where
  settings := h'.settings
  environment := h'.environment.trans h.environment
  cursors other hother := (h'.cursors other hother).trans (h.cursors other hother)

theorem OnlyCursor.refl (name : String) (s : Session) : OnlyCursor name s.settings s s :=
  ⟨rfl, rfl, fun _ _ => rfl⟩

theorem onlyCursor_keepCursor (c : Cursor) :
    OnlyCursor name s.settings s { s with cursors := Entries.put s.cursors name c } := by
  refine ⟨rfl, rfl, fun other hother => ?_⟩
  rw [Entries.get?_put, if_neg (by simpa using Ne.symm hother)]

theorem onlyCursor_openCursor {p : Pattern} {after : DateTime} {limit : Option Int}
    {matchSeconds : Option Bool} :
    OnlyCursor name s.settings s
      (outcome (openCursor name p after limit matchSeconds) host s).2 := by
  unfold openCursor
  rw [outcome_bind, outcome_ofResult]
  cases Cursor.start p after limit matchSeconds with
  | error e => exact .refl name s
  | ok c => exact onlyCursor_keepCursor c

/-- Asking what remains changes nothing. -/
theorem outcome_remaining : outcome (remaining name) host s =
    (match Entries.get? s.cursors name with
      | some c => .ok c.remaining
      | none => .error (.fault .noSuchCursor), s) := by
  rw [remaining, outcome_bind, outcome_cursor]
  cases Entries.get? s.cursors name <;> rfl

/-- What the session has in force behind a call to advance or drain. -/
def settingsBehind (host : Host) (name : String) (s : Session) : Option Settings :=
  s.settings.or
    (if (Entries.get? s.cursors name).any Cursor.needsSettings then s.loaded? host else none)

theorem settingsBehind_of_isSome (h : s.settings.isSome = true) :
    settingsBehind host name s = s.settings := by
  obtain ⟨inForce, hs⟩ := Option.isSome_iff_exists.mp h
  rw [settingsBehind, hs, Option.some_or]

theorem onlyCursor_advance (host : Host) (name : String) (s : Session) :
    OnlyCursor name (settingsBehind host name s) s (outcome (advance name) host s).2 := by
  unfold settingsBehind
  cases h : Entries.get? s.cursors name with
  | none =>
    have hbehind : (outcome (advance name) host s).2 = s := by
      rw [advance, outcome_bind, outcome_cursor, h, Option.elim_none]
    rw [hbehind]
    exact ⟨by simp, rfl, fun other _ => rfl⟩
  | some c =>
    obtain ⟨c', warnings, -, hbehind⟩ := advance_behind host h
    rw [hbehind]
    exact ⟨by simp, rfl, (onlyCursor_keepCursor (s := s) c').cursors⟩

/-- A date that is given was found under settings in force. -/
theorem isSome_settings_of_advance {d : DateTime} {behind : Session}
    (h : outcome (advance name) host s = (.ok d, behind)) : behind.settings.isSome = true := by
  simp only [advance, outcome_bind, outcome_cursor] at h
  cases hcursor : Entries.get? s.cursors name with
  | none => simp [hcursor] at h
  | some c =>
    cases hdone : c.isDone with
    | true => simp [hcursor, outcome_step_of_isDone hdone, keepCursor] at h
    | false =>
      simp only [hcursor, Option.elim_some, outcome_step hdone, keepCursor, outcome_modify] at h
      cases hnext : outcome (next c.pattern c.position c.matchSeconds) host s with
      | mk result found =>
        rw [hnext] at h
        cases result with
        | error e => cases h
        | ok date =>
          obtain ⟨inForce, -, hinForce, -⟩ := exists_next_of_outcome hnext
          cases date with
          | none => cases h
          | some e =>
            cases h
            exact Option.isSome_of_eq_some hinForce

theorem onlyCursor_drainFor (steps : Nat) : ∀ (taken : List DateTime) (s : Session),
    OnlyCursor name (settingsBehind host name s) s
      (outcome (drainFor name (steps + 1) taken) host s).2 := by
  induction steps with
  | zero =>
    intro taken s
    have hfirst := onlyCursor_advance host name s
    rw [outcome_drainFor_succ]
    split <;> next h => rw [h] at hfirst; exact hfirst
  | succ steps ih =>
    intro taken s
    have hfirst := onlyCursor_advance host name s
    rw [outcome_drainFor_succ]
    split
    · next d behind h =>
      rw [h] at hfirst
      have hrest := ih (d :: taken) behind
      rw [settingsBehind_of_isSome (isSome_settings_of_advance h), hfirst.settings] at hrest
      exact hfirst.trans hrest
    all_goals next h => rw [h] at hfirst; exact hfirst

theorem onlyCursor_drain :
    OnlyCursor name (settingsBehind host name s) s (outcome (drain name) host s).2 := by
  cases h : Entries.get? s.cursors name with
  | none =>
    have hbehind : (outcome (drain name) host s).2 = s := by
      rw [drain, outcome_bind, outcome_cursor, h, Option.elim_none]
    rw [hbehind]
    exact ⟨by simp [settingsBehind, h], rfl, fun other _ => rfl⟩
  | some c =>
    have hdrain : outcome (drain name) host s =
        outcome (drainFor name (c.remaining.getD calendarSeconds + 1) []) host s := by
      rw [drain, outcome_bind, outcome_cursor, h, Option.elim_some]
    rw [hdrain]
    exact onlyCursor_drainFor _ [] s

end Call

/-! ### Every request -/

namespace Request

open Call

variable {host : Host} {s : Session} {r : Request}

/-- A request whose call changes nothing but settings that it looks up. -/
theorem Leaves.of_looksUp {b : Bool} (h : LooksUp host b r.call) (hneeds : r.needsSettings s = b)
    (hforgets : r.forgets = false) (hconfigured : ∀ result, r.configured? result = none)
    (henvironment : r.environment? = none) :
    r.Leaves host s (outcome r.call host s).1 (outcome r.call host s).2 := by
  obtain ⟨warnings, hbehind⟩ := h s
  rw [hbehind]
  exact ⟨by simp [hneeds, hforgets, hconfigured], by simp [henvironment], fun name _ => rfl⟩

/-- A request about a cursor alone. -/
theorem Leaves.of_onlyCursor {name : String} {settings : Option Settings}
    (h : OnlyCursor name settings s (outcome r.call host s).2)
    (hsettings : settings = s.settings.or (if r.needsSettings s then s.loaded? host else none))
    (hname : r.cursorName? = some name) (hforgets : r.forgets = false)
    (hconfigured : ∀ result, r.configured? result = none) (henvironment : r.environment? = none) :
    r.Leaves host s (outcome r.call host s).1 (outcome r.call host s).2 where
  settings := by simp [h.settings, hsettings, hforgets, hconfigured]
  environment := by simp [h.environment, henvironment]
  cursors other hother := h.cursors other fun heq => hother (by rw [hname, heq])

theorem leaves (host : Host) (s : Session) (r : Request) :
    r.Leaves host s (outcome r.call host s).1 (outcome r.call host s).2 := by
  cases r with
  | settings => exact .of_looksUp looksUp_settings.map rfl rfl (fun _ => rfl) rfl
  | configure base overrides =>
    have hbehind := configure_behind host s base overrides
    have hresult (result : Except Error Settings) :
        (configure base overrides).configured? (result.map .settings) = result.toOption := by
      cases result <;> rfl
    rw [call, outcome_map, hbehind]
    exact ⟨by rw [hresult]; rfl, rfl, fun name _ => rfl⟩
  | resetSettings => exact ⟨rfl, rfl, fun name _ => rfl⟩
  | setEnvironment environment =>
    refine ⟨?_, rfl, fun name _ => rfl⟩
    show s.settings = Option.or none (s.settings.or none)
    simp
  | zone ref => exact .of_looksUp (looksUp_zone ref).map rfl rfl (fun _ => rfl) rfl
  | wallClock instant ref =>
    exact .of_looksUp (looksUp_wallClock instant ref).map rfl rfl (fun _ => rfl) rfl
  | accepts p instant ref matchSeconds =>
    exact .of_looksUp (looksUp_accepts p instant ref matchSeconds).map rfl rfl (fun _ => rfl) rfl
  | acceptsOwn p instant =>
    exact .of_looksUp (looksUp_accepts p instant none _).map (by simp [needsSettings]) rfl
      (fun _ => rfl) rfl
  | dates p start stop count matchSeconds ref =>
    exact .of_looksUp (looksUp_dates p start stop count matchSeconds ref).map rfl rfl
      (fun _ => rfl) rfl
  | firstOfYear p start matchSeconds =>
    exact .of_looksUp (looksUp_firstOfYear p start matchSeconds).map rfl rfl (fun _ => rfl) rfl
  | next p after matchSeconds =>
    exact .of_looksUp (looksUp_next host p after matchSeconds).map rfl rfl (fun _ => rfl) rfl
  | openCursor name p after limit matchSeconds =>
    have h : OnlyCursor name s.settings s
        (outcome (call (.openCursor name p after limit matchSeconds)) host s).2 := by
      rw [call, outcome_map]
      exact onlyCursor_openCursor
    exact .of_onlyCursor h (by simp [needsSettings]) rfl rfl (fun _ => rfl) rfl
  | advance name =>
    exact .of_onlyCursor
      (by rw [call, ← map_eq_pure_bind, outcome_map]; exact onlyCursor_advance host name s)
      rfl rfl rfl (fun _ => rfl) rfl
  | drain name =>
    exact .of_onlyCursor (by rw [call, outcome_map]; exact onlyCursor_drain)
      rfl rfl rfl (fun _ => rfl) rfl
  | remaining name =>
    have h : OnlyCursor name s.settings s (outcome (call (.remaining name)) host s).2 := by
      rw [call, outcome_map, outcome_remaining]
      exact .refl name s
    exact .of_onlyCursor h (by simp [needsSettings]) rfl rfl (fun _ => rfl) rfl

end Request

/-! ### Runs -/

/-- A request at its place in a session. -/
structure Event (host : Host) where
  before : Session
  request : Request

namespace Event

variable {host : Host}

/-- The response to the request. -/
def response (e : Event host) : Response := (e.before.respond host e.request).1

/-- The session behind the request. -/
def behind (e : Event host) : Session := (e.before.respond host e.request).2

theorem leaves (e : Event host) :
    e.request.Leaves host e.before e.response.result e.behind := by
  have h := e.request.leaves host { e.before with warnings := [] }
  exact ⟨h.settings, h.environment, h.cursors⟩

end Event

namespace Session

variable {host : Host}

/-- The events of a run. -/
def history (host : Host) (s : Session) : List Request → List (Event host)
  | [] => []
  | r :: rest => ⟨s, r⟩ :: (s.respond host r).2.history host rest

/-- The session behind a run. -/
def reached (host : Host) (s : Session) (requests : List Request) : Session :=
  (s.run host requests).2

theorem reached_cons (s : Session) (r : Request) (rest : List Request) :
    s.reached host (r :: rest) = (s.respond host r).2.reached host rest := rfl

theorem reached_append (s : Session) (requests more : List Request) :
    s.reached host (requests ++ more) = (s.reached host requests).reached host more := by
  induction requests generalizing s with
  | nil => rfl
  | cons r rest ih => exact ih _

theorem run_append (s : Session) (requests more : List Request) :
    (s.run host (requests ++ more)).1 =
      (s.run host requests).1 ++ ((s.reached host requests).run host more).1 := by
  induction requests generalizing s with
  | nil => rfl
  | cons r rest ih => exact congrArg (_ :: ·) (ih _)

theorem history_append (s : Session) (requests more : List Request) :
    s.history host (requests ++ more) =
      s.history host requests ++ (s.reached host requests).history host more := by
  induction requests generalizing s with
  | nil => rfl
  | cons r rest ih => exact congrArg (_ :: ·) (ih _)

end Session

end CronSchedule
