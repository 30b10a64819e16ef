import CronSchedule.Proofs.Session.Influence
import CronSchedule.Proofs.Session.InForce

/-!
# Settings that are loaded ahead of time

Settings are loaded by the first request that needs them.  Had an earlier request loaded them, the
session would be ahead of itself by these settings, and nothing would tell: every request has the
same response in both sessions, and the first that needs settings, puts others in force or forgets
them brings the two together again.

What is load-bearing is that both sessions load the same, or would.  A new environment may change
what the session that is behind will load, and has no influence on the other; so a run may set
environments in which the same settings are loaded, and any at all once the two have come together.

* `Session.Ahead` — a session, and the same with the settings in force that it would load;
* `Call.LoadsAnytime` — calls that do the same in both, with its laws for calls in sequence;
* `Request.loadsAnytime` — every request but for a new environment;
* `Session.Ahead.run` — a run in both, `Session.Ahead.reached_eq` — where they come together, and
  `Session.Ahead.run_append` — what follows.
-/

namespace CronSchedule

open Call (outcome)

variable {host : Host}

/-- The second session is the first, or is ahead of it by the settings that the first would load. -/
inductive Session.Ahead (host : Host) (s : Session) : Session → Prop
  | same : Ahead host s s
  | loaded {x : Settings} (hnone : s.settings = none) (hload : s.loaded? host = some x) :
      Ahead host s (s.inForce x)

/-- Sessions that have settings in force are not ahead of each other. -/
theorem Session.Ahead.eq_of_isSome {s t : Session} (h : s.Ahead host t)
    (hsome : s.settings.isSome = true) : s = t := by
  cases h with
  | same => rfl
  | loaded hnone hload =>
    rw [hnone] at hsome
    cases hsome

namespace Call

variable {α β : Type}

/-- The call does the same, whether or not settings that it would load have been loaded before. -/
def LoadsAnytime (host : Host) (c : Call α) : Prop :=
  ∀ s t : Session, s.Ahead host t → ∃ result s' t',
    outcome c host s = (result, s') ∧ outcome c host t = (result, t') ∧ s'.Ahead host t'

/-! ### Calls in sequence -/

theorem loadsAnytime_ofResult (r : Except Error α) : LoadsAnytime host (ofResult r) :=
  fun s t h => ⟨r, s, t, outcome_ofResult r host s, outcome_ofResult r host t, h⟩

theorem loadsAnytime_pure (a : α) : LoadsAnytime host (pure a) := loadsAnytime_ofResult (.ok a)

theorem loadsAnytime_throw (e : Error) : LoadsAnytime host (throw e : Call α) :=
  loadsAnytime_ofResult (.error e)

theorem loadsAnytime_read : LoadsAnytime host (read : Call Host) :=
  fun s t h => ⟨.ok host, s, t, rfl, rfl, h⟩

theorem loadsAnytime_modify {f : Session → Session}
    (hf : ∀ s t : Session, s.Ahead host t → (f s).Ahead host (f t)) :
    LoadsAnytime host (modify f) :=
  fun s t h => ⟨.ok (), f s, f t, rfl, rfl, hf s t h⟩

theorem LoadsAnytime.bind {c : Call α} {f : α → Call β} (hc : LoadsAnytime host c)
    (hf : ∀ a, LoadsAnytime host (f a)) : LoadsAnytime host (c >>= f) := by
  intro s t h
  obtain ⟨result, s', t', hs, ht, h'⟩ := hc s t h
  rw [outcome_bind, outcome_bind, hs, ht]
  cases result with
  | error e => exact ⟨.error e, s', t', rfl, rfl, h'⟩
  | ok a => exact hf a s' t' h'

theorem LoadsAnytime.map {c : Call α} (hc : LoadsAnytime host c) (f : α → β) :
    LoadsAnytime host (f <$> c) := by
  rw [map_eq_pure_bind]
  exact hc.bind fun a => loadsAnytime_pure (f a)

/-! ### Settings -/

/-- Behind a look at the settings the two sessions are the same. -/
theorem loadsAnytime_settings : LoadsAnytime host settings := by
  intro s t h
  cases h with
  | same => exact ⟨_, _, _, rfl, rfl, .same⟩
  | @loaded x hnone hload =>
    have hfirst : outcome settings host s = (.ok x, s.inForce x) := by
      rw [outcome_settings_of_none hnone]
      unfold Session.loaded? at hload
      cases hresult : Settings.load host.files none s.environment with
      | ok loaded =>
        rw [hresult] at hload
        obtain rfl := Option.some.inj hload
        rfl
      | error e =>
        rw [hresult] at hload
        cases hload
    exact ⟨.ok x, _, _, hfirst, outcome_settings_of_some rfl host, .same⟩

theorem loadsAnytime_putInForce (result : Except Error Settings) :
    LoadsAnytime host (putInForce result) := by
  intro s t h
  refine ⟨result, _, _, outcome_putInForce result host s, outcome_putInForce result host t, ?_⟩
  cases result with
  | error e => exact h
  | ok new =>
    cases h with
    | same => exact .same
    | loaded hnone hload => exact .same

theorem loadsAnytime_configure (base : Option Settings) (overrides : Entries String Value) :
    LoadsAnytime host (configure base overrides) := by
  cases hname : Entries.get? overrides baseName with
  | some v =>
    have hthrow : configure base overrides = throw (.fault .wrongKind) := by
      simp only [configure, hname]
      rfl
    rw [hthrow]
    exact loadsAnytime_throw _
  | none =>
    rw [configure_eq hname]
    cases base with
    | some base => exact (loadsAnytime_pure base).bind fun x => loadsAnytime_putInForce _
    | none => exact loadsAnytime_settings.bind fun x => loadsAnytime_putInForce _

theorem loadsAnytime_resetSettings : LoadsAnytime host resetSettings := by
  refine loadsAnytime_modify fun s t h => ?_
  cases h with
  | same => exact .same
  | loaded hnone hload => exact .same

/-! ### What leaves settings alone -/

theorem loadsAnytime_warn (w : Option CapWarning) : LoadsAnytime host (warn w) := by
  cases w with
  | none => exact loadsAnytime_pure ()
  | some w =>
    refine loadsAnytime_modify fun s t h => ?_
    cases h with
    | same => exact .same
    | loaded hnone hload => exact .loaded hnone hload

theorem loadsAnytime_keepCursor (name : String) (c : Cursor) :
    LoadsAnytime host (keepCursor name c) := by
  refine loadsAnytime_modify fun s t h => ?_
  cases h with
  | same => exact .same
  | loaded hnone hload => exact .loaded hnone hload

theorem loadsAnytime_cursor (name : String) : LoadsAnytime host (cursor name) := by
  intro s t h
  refine ⟨_, s, t, outcome_cursor name host s, ?_, h⟩
  rw [outcome_cursor]
  cases h <;> rfl

/-! ### Matching and enumerating -/

theorem loadsAnytime_zone (ref : Option ZoneRef) : LoadsAnytime host (zone ref) := by
  cases ref with
  | some ref =>
    exact loadsAnytime_read.bind fun h => (loadsAnytime_ofResult _).bind fun z =>
      loadsAnytime_pure _
  | none =>
    exact loadsAnytime_settings.bind fun x => loadsAnytime_read.bind fun h =>
      loadsAnytime_ofResult _

theorem loadsAnytime_clock (ref : Option ZoneRef) : LoadsAnytime host (clock ref) := by
  refine (loadsAnytime_zone ref).bind fun choice => ?_
  cases choice with
  | localClock => exact loadsAnytime_pure _
  | zone z => exact loadsAnytime_pure _
  | noZone v => exact loadsAnytime_throw _

theorem loadsAnytime_dateTimeIn (d : DateTime) (ref : Option ZoneRef) :
    LoadsAnytime host (dateTimeIn d ref) := by
  cases ref with
  | none => exact loadsAnytime_pure d
  | some ref =>
    refine loadsAnytime_read.bind fun h => (loadsAnytime_ofResult _).bind fun z => ?_
    split
    · exact loadsAnytime_pure d
    · exact loadsAnytime_ofResult _

theorem loadsAnytime_wallClock (instant : Instant) (ref : Option ZoneRef) :
    LoadsAnytime host (wallClock instant ref) := by
  cases instant with
  | dateTime d => exact loadsAnytime_dateTimeIn d ref
  | timestamp seconds => exact (loadsAnytime_clock ref).bind fun z => loadsAnytime_ofResult _
  | fractional seconds => exact (loadsAnytime_clock ref).bind fun z => loadsAnytime_ofResult _
  | other kind => exact loadsAnytime_throw _

theorem loadsAnytime_accepts (p : Pattern) (instant : Instant) (ref : Option ZoneRef)
    (matchSeconds : Option Bool) :
    LoadsAnytime host (accepts p instant ref matchSeconds) := by
  have hcompares : LoadsAnytime host (comparesSeconds matchSeconds) := by
    cases matchSeconds with
    | some withSeconds => exact loadsAnytime_pure withSeconds
    | none => exact loadsAnytime_settings.bind fun x => loadsAnytime_pure _
  exact hcompares.bind fun withSeconds => (loadsAnytime_wallClock instant ref).bind fun d =>
    loadsAnytime_ofResult _

theorem loadsAnytime_dates (p : Pattern) (start : Instant) (stop : Option Instant) (count : Int)
    (matchSeconds : Option Bool) (ref : Option ZoneRef) :
    LoadsAnytime host (dates p start stop count matchSeconds ref) :=
  (loadsAnytime_ofResult _).bind fun _ => loadsAnytime_settings.bind fun _ =>
    loadsAnytime_read.bind fun _ => (loadsAnytime_ofResult _).bind fun _ =>
      (loadsAnytime_warn _).bind fun _ => loadsAnytime_pure _

theorem loadsAnytime_next (p : Pattern) (after : DateTime) (matchSeconds : Option Bool) :
    LoadsAnytime host (next p after matchSeconds) :=
  (loadsAnytime_ofResult _).bind fun _ => loadsAnytime_settings.bind fun _ =>
    loadsAnytime_read.bind fun _ => (loadsAnytime_ofResult _).bind fun _ =>
      (loadsAnytime_warn _).bind fun _ => loadsAnytime_pure _

/-! ### Cursors -/

theorem loadsAnytime_openCursor (name : String) (p : Pattern) (after : DateTime)
    (limit : Option Int) (matchSeconds : Option Bool) :
    LoadsAnytime host (openCursor name p after limit matchSeconds) :=
  (loadsAnytime_ofResult _).bind fun c => (loadsAnytime_keepCursor name c).bind fun _ =>
    loadsAnytime_pure _

theorem loadsAnytime_step (c : Cursor) : LoadsAnytime host (step c) := by
  unfold step
  split
  · exact loadsAnytime_pure _
  · exact (loadsAnytime_next _ _ _).bind fun date => loadsAnytime_pure _

theorem loadsAnytime_advance (name : String) : LoadsAnytime host (advance name) := by
  refine (loadsAnytime_cursor name).bind fun c => (loadsAnytime_step c).bind fun x =>
    (loadsAnytime_keepCursor name x.2).bind fun _ => ?_
  cases x.1 with
  | some d => exact loadsAnytime_pure d
  | none => exact loadsAnytime_throw _

theorem loadsAnytime_drainFor (name : String) (steps : Nat) : ∀ taken : List DateTime,
    LoadsAnytime host (drainFor name steps taken) := by
  induction steps with
  | zero => exact fun taken => loadsAnytime_pure _
  | succ steps ih =>
    intro taken
    refine (loadsAnytime_cursor name).bind fun c => (loadsAnytime_step c).bind fun x =>
      (loadsAnytime_keepCursor name x.2).bind fun _ => ?_
    cases x.1 with
    | some d => exact ih _
    | none => exact loadsAnytime_pure _

theorem loadsAnytime_drain (name : String) : LoadsAnytime host (drain name) :=
  (loadsAnytime_cursor name).bind fun _ => loadsAnytime_drainFor name _ []

end Call

/-! ### Requests -/

/-- Settings that a request needs may as well have been loaded before it. -/
theorem Request.loadsAnytime {r : Request} (h : r.environment? = none) :
    Call.LoadsAnytime host r.call := by
  cases r with
  | setEnvironment environment => cases h
  | settings => exact Call.loadsAnytime_settings.map _
  | configure base overrides => exact (Call.loadsAnytime_configure base overrides).map _
  | resetSettings => exact Call.loadsAnytime_resetSettings.bind fun _ => Call.loadsAnytime_pure _
  | zone ref => exact (Call.loadsAnytime_zone ref).map _
  | wallClock instant ref =>
    exact (Call.loadsAnytime_wallClock instant ref).bind fun d => Call.loadsAnytime_pure _
  | accepts p instant ref matchSeconds =>
    exact (Call.loadsAnytime_accepts p instant ref matchSeconds).map _
  | acceptsOwn p instant => exact (Call.loadsAnytime_accepts p instant none _).map _
  | dates p start stop count matchSeconds ref =>
    exact (Call.loadsAnytime_dates p start stop count matchSeconds ref).map _
  | firstOfYear p start matchSeconds =>
    exact ((Call.loadsAnytime_dates p start none 1 matchSeconds none).bind fun _ =>
      Call.loadsAnytime_pure _).map _
  | next p after matchSeconds => exact (Call.loadsAnytime_next p after matchSeconds).map _
  | openCursor name p after limit matchSeconds =>
    exact (Call.loadsAnytime_openCursor name p after limit matchSeconds).map _
  | advance name => exact (Call.loadsAnytime_advance name).bind fun d => Call.loadsAnytime_pure _
  | drain name => exact (Call.loadsAnytime_drain name).map _
  | remaining name =>
    exact ((Call.loadsAnytime_cursor name).bind fun _ => Call.loadsAnytime_pure _).map _

namespace Session

variable {s t : Session}

/-- Whichever environments the request sets, the settings that can be loaded from it are the
settings that can be loaded from the given one. -/
def LoadsLike (host : Host) (environment : Environment) (r : Request) : Prop :=
  ∀ later, r = .setEnvironment later →
    Settings.load host.files none later = Settings.load host.files none environment

theorem Ahead.warnings (h : s.Ahead host t) (warnings : List CapWarning) :
    Ahead host { s with warnings } { t with warnings } := by
  cases h with
  | same => exact .same
  | loaded hnone hload => exact .loaded hnone hload

/-- A request has the same response in two sessions of which one is ahead, and the one stays ahead
unless the environment that it sets makes a difference. -/
theorem Ahead.respond (h : s.Ahead host t) {r : Request} (hr : LoadsLike host s.environment r) :
    ∃ response s' t', s.respond host r = (response, s') ∧ t.respond host r = (response, t') ∧
      s'.Ahead host t' := by
  cases henvironment : r.environment? with
  | none =>
    obtain ⟨result, s', t', hs, ht, h'⟩ := Request.loadsAnytime henvironment _ _ (h.warnings [])
    have hwarnings : s'.warnings = t'.warnings := by cases h' <;> rfl
    refine ⟨⟨result, s'.warnings⟩, _, _, ?_, ?_, h'.warnings []⟩
    · simp only [Session.respond, hs]
    · simp only [Session.respond, ht, hwarnings]
  | some environment =>
    obtain rfl : r = .setEnvironment environment := by
      cases r <;> cases henvironment
      rfl
    refine ⟨⟨.ok .nothing, []⟩, _, _, rfl, rfl, ?_⟩
    cases h with
    | same => exact .same
    | loaded hnone hload =>
      -- the session that is behind will load the same from the new environment
      refine .loaded hnone ?_
      rw [← hload]
      exact congrArg Except.toOption (hr environment rfl)

/-- Behind a request the settings that can be loaded are the same, unless the environment that it
sets makes a difference. -/
theorem load_respond_environment {r : Request} (hr : LoadsLike host s.environment r) :
    Settings.load host.files none (s.respond host r).2.environment =
      Settings.load host.files none s.environment := by
  have hbehind : (s.respond host r).2.environment = r.environment?.getD s.environment :=
    (⟨s, r⟩ : Event host).leaves.environment
  rw [hbehind]
  cases henvironment : r.environment? with
  | none => rfl
  | some environment =>
    obtain rfl : r = .setEnvironment environment := by
      cases r <;> cases henvironment
      rfl
    exact hr environment rfl

/-- A run has the same responses in two sessions of which one is ahead, as long as no environment
that it sets makes a difference. -/
theorem Ahead.run (h : s.Ahead host t) {requests : List Request}
    (hrequests : ∀ r ∈ requests, LoadsLike host s.environment r) :
    (s.run host requests).1 = (t.run host requests).1 ∧
      (s.reached host requests).Ahead host (t.reached host requests) := by
  induction requests generalizing s t with
  | nil => exact ⟨rfl, h⟩
  | cons r rest ih =>
    obtain ⟨hr, hrest⟩ := List.forall_mem_cons.mp hrequests
    obtain ⟨response, s', t', hs, ht, h'⟩ := h.respond hr
    have hload := load_respond_environment hr
    rw [hs] at hload
    obtain ⟨hresponses, hreached⟩ := ih h' fun later hlater environment heq =>
      (hrest later hlater environment heq).trans hload.symm
    refine ⟨?_, ?_⟩
    · simp only [Session.run, hs, ht, hresponses]
    · simp only [reached_cons, hs, ht]
      exact hreached

theorem Ahead.behind_resetSettings (h : s.Ahead host t) :
    (s.respond host .resetSettings).2 = (t.respond host .resetSettings).2 := by
  cases h <;> rfl

/-- Two sessions of which one is ahead come together where settings are in force in the other, or
have been forgotten on the way. -/
theorem Ahead.reached_eq (h : s.Ahead host t) {requests : List Request}
    (hrequests : ∀ r ∈ requests, LoadsLike host s.environment r)
    (hmeet : (s.reached host requests).settings.isSome = true ∨
      ∃ r ∈ requests, r.forgets = true) :
    s.reached host requests = t.reached host requests := by
  rcases hmeet with hsome | ⟨r, hmem, hforgets⟩
  · exact (h.run hrequests).2.eq_of_isSome hsome
  · obtain rfl : r = .resetSettings := by
      cases r <;> cases hforgets
      rfl
    obtain ⟨before, after, rfl⟩ := List.append_of_mem hmem
    obtain ⟨-, hbefore⟩ := h.run fun r hr => hrequests r (List.mem_append_left _ hr)
    simp only [reached_append, reached_cons, hbefore.behind_resetSettings]

/-- A run has the same responses in two sessions of which one is ahead, when environments that make
a difference are set behind the place where the two come together. -/
theorem Ahead.run_append (h : s.Ahead host t) {requests later : List Request}
    (hrequests : ∀ r ∈ requests, LoadsLike host s.environment r)
    (hmeet : later = [] ∨ (s.reached host requests).settings.isSome = true ∨
      ∃ r ∈ requests, r.forgets = true) :
    (s.run host (requests ++ later)).1 = (t.run host (requests ++ later)).1 := by
  rcases hmeet with rfl | hmeet
  · rw [List.append_nil]
    exact (h.run hrequests).1
  · rw [Session.run_append, Session.run_append, (h.run hrequests).1, h.reached_eq hrequests hmeet]

end Session

end CronSchedule
