import CronSchedule.Proofs.Session.History
import Mathlib.Data.List.DropRight

/-!
# Which settings are in force

Settings are loaded by whichever request needs them first, and many kinds of requests may.  Yet
which settings are in force at the end of a run can be told from a short account of it: of the
requests since settings were last forgotten, those that configured, and those that needed
settings where some could be loaded.

What is load-bearing is that a load that fails leaves nothing behind, so it need not be
mentioned, and that of several loads only the first counts, so the environment of the later ones
need not be either.

* `Event.configured?`, `Event.loaded?` — the two entries of the account;
* `Event.inForce?` — the settings in force by the account;
* `Session.settings_reached` — the settings in force behind a run;
* `Session.respond_settings_reached` — so every request for the settings is answered by the
  account, or else by a load from the environment at that time.
-/

namespace CronSchedule

variable {host : Host}

/-! ### The account of a run -/

namespace Event

/-- The settings that were configured. -/
def configured? (e : Event host) : Option Settings := e.request.configured? e.response.result

/-- The settings that are loaded from the environment of the event, where it needs any. -/
def loaded? (e : Event host) : Option Settings :=
  if e.request.needsSettings e.before then
    (Settings.load host.files none e.before.environment).toOption
  else none

/-- The events since settings were last forgotten. -/
def sinceForgotten (events : List (Event host)) : List (Event host) :=
  events.rtakeWhile fun e => !e.request.forgets

/-- The settings that were last configured since settings were forgotten, or else those that were
first loaded since then. -/
def inForce? (events : List (Event host)) : Option Settings :=
  ((sinceForgotten events).filterMap configured?).getLast?.or
    ((sinceForgotten events).filterMap loaded?).head?

theorem settings_behind (e : Event host) :
    e.behind.settings =
      if e.request.forgets then none else e.configured?.or (e.before.settings.or e.loaded?) :=
  e.leaves.settings

/-- What an event adds to the account. -/
theorem inForce?_concat (events : List (Event host)) (e : Event host) :
    inForce? (events ++ [e]) =
      if e.request.forgets then none else e.configured?.or ((inForce? events).or e.loaded?) := by
  unfold inForce? sinceForgotten
  cases hforgets : e.request.forgets with
  | true => simp [hforgets]
  | false =>
    have hone (f : Event host → Option Settings) :
        [e].filterMap f = (f e).toList := by
      cases h : f e with
      | none => exact List.filterMap_cons_none h
      | some x => exact List.filterMap_cons_some h
    rw [List.rtakeWhile_concat_pos _ _ _ (by simp [hforgets])]
    simp only [List.filterMap_append, hone, List.getLast?_append, List.head?_append]
    cases e.configured? <;> cases e.loaded? <;> simp

end Event

/-! ### Runs -/

namespace Session

/-- The environment that was last set, or else that of the start. -/
theorem environment_reached (s : Session) (requests : List Request) :
    (s.reached host requests).environment =
      (requests.filterMap Request.environment?).getLast?.getD s.environment := by
  induction requests using List.reverseRecOn with
  | nil => rfl
  | append_singleton requests r ih =>
    have hlast := (⟨s.reached host requests, r⟩ : Event host).leaves.environment
    rw [reached_append]
    refine hlast.trans ?_
    rw [ih, List.filterMap_append, List.getLast?_append]
    cases h : r.environment? <;> simp [h]

/-- The settings in force behind a run that starts without any are those of its account. -/
theorem settings_reached {s : Session} (hs : s.settings = none) (requests : List Request) :
    (s.reached host requests).settings = Event.inForce? (s.history host requests) := by
  induction requests using List.reverseRecOn with
  | nil => exact hs
  | append_singleton requests r ih =>
    rw [reached_append, history_append]
    refine (Event.settings_behind ⟨s.reached host requests, r⟩).trans ?_
    rw [ih]
    exact (Event.inForce?_concat _ _).symm

theorem respond_settings (s : Session) :
    (s.respond host .settings).1.result =
      (match s.settings with
        | some inForce => Except.ok inForce
        | none => Settings.load host.files none s.environment).map .settings := by
  let start : Session := { s with warnings := [] }
  show (Call.outcome (Request.call .settings) host start).1 = _
  rw [Request.call, Call.outcome_map]
  cases hs : s.settings with
  | some inForce => rw [Call.outcome_settings_of_some (s := start) hs]
  | none =>
    rw [Call.outcome_settings_of_none (s := start) hs]
    cases Settings.load host.files none s.environment <;> rfl

/-- In a session that starts without settings, a request for them is answered by the account of
what was asked before: with the settings last configured, or else first loaded, since settings
were last forgotten; and where there are none, with what can be loaded from the environment at
that time.  Behind any request settings are in force that it configures, or that were in force, or
that it needs and loads; so a load that fails keeps nothing. -/
theorem respond_settings_reached (host : Host) (environment : Environment)
    (requests : List Request) :
    let s : Session := { environment }
    let last := s.reached host requests
    let loaded := Settings.load host.files none
      ((requests.filterMap Request.environment?).getLast?.getD environment)
    (last.respond host .settings).1.result =
        (match Event.inForce? (s.history host requests) with
          | some inForce => Except.ok inForce
          | none => loaded).map .settings ∧
      ∀ r, (last.respond host r).2.settings =
        if r.forgets then none
        else (r.configured? (last.respond host r).1.result).or
          ((Event.inForce? (s.history host requests)).or
            (if r.needsSettings last then loaded.toOption else none)) := by
  intro s last loaded
  have hsettings : last.settings = Event.inForce? (s.history host requests) :=
    settings_reached rfl requests
  have henvironment : loaded = Settings.load host.files none last.environment := by
    rw [environment_reached]
  rw [← hsettings, henvironment]
  exact ⟨last.respond_settings, fun r => Event.settings_behind ⟨last, r⟩⟩

end Session

end CronSchedule
