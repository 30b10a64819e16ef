import CronSchedule.Proofs.Session.Ahead
import CronSchedule.Proofs.Session.Lifecycle
import CronSchedule.Proofs.Session.Overridden

/-!
# Overrides that are rejected

A call that configures and fails replaces no settings.  But it may have looked up the settings that
it was to write its overrides over, and where none were in force these stay loaded.  So it leaves
what a request for the settings would leave in its place, and later responses can tell that from a
call that was never made in one way only: an environment is set before anything else needs
settings, and it would have been read.

What is load-bearing is that a session which is ahead by settings that it would load anyway is not
told apart from itself, and that some environment tells the two apart from then on: for any
settings there is one in which others are loaded.

* `Session.lookedUp` — the session behind a look at the settings, and behind a call to configure
  that fails;
* `Session.exists_run_ne` — what tells two sessions apart;
* `Session.forall_run_lookedUp_iff`, `Session.run_lookedUp_append` — when nothing does;
* `Session.run_rejected` — the responses behind a call to configure that fails.
-/

namespace CronSchedule

open Call (outcome)

variable {host : Host} {s : Session} {base : Option Settings} {overrides : Entries String Value}

/-! ### Environments -/

/-- The environment in which the comparison of seconds is set by a word. -/
def secondsEnvironment (word : String) : Environment := [("CRONMATCH_MATCH_SECONDS", word)]

theorem load_secondsEnvironment (files : FileSource) (compares : Bool) :
    Settings.load files none (secondsEnvironment (if compares then "on" else "off")) =
      .ok { matchSeconds := .bool compares } := by
  cases compares <;> exact Settings.ofEntries_eq_ok_iff.mpr rfl

namespace Session

/-! ### Settings that have been looked up -/

/-- The session behind a call that looks settings up, or does not, and changes nothing else. -/
def lookedUp (host : Host) (s : Session) (looksUp : Bool) : Session :=
  { s with settings := s.settings.or (if looksUp then s.loaded? host else none), warnings := [] }

/-- A request for the settings looks them up. -/
theorem behind_settings (host : Host) (s : Session) :
    (s.respond host .settings).2 = s.lookedUp host true := by
  let start : Session := { s with warnings := [] }
  have hlooks : Call.LooksUp host true Call.settings := Call.looksUp_settings
  obtain ⟨warnings, hbehind⟩ := hlooks start
  show { (outcome (Request.call .settings) host start).2 with warnings := [] } = _
  rw [Request.call, Call.outcome_map, hbehind]
  rfl

/-- A call to configure that fails looks them up where it is to write over them. -/
theorem behind_configure_of_error {e : Error}
    (h : (s.respond host (.configure base overrides)).1.result = .error e) :
    (s.respond host (.configure base overrides)).2 =
      s.lookedUp host (base.isNone && (Entries.get? overrides Call.baseName).isNone) := by
  let start : Session := { s with warnings := [] }
  have hbehind := Call.configure_behind host start base overrides
  have hresult : (outcome (Call.configure base overrides) host start).1.toOption = none := by
    rw [result_respond_configure] at h
    cases hfails : (outcome (Call.configure base overrides) host start).1 with
    | ok new =>
      rw [hfails] at h
      cases h
    | error e => rfl
  rw [hresult, Option.none_or] at hbehind
  show { (outcome (Request.call (.configure base overrides)) host start).2 with
    warnings := [] } = _
  rw [Request.call, Call.outcome_map, hbehind]
  rfl

/-- The session is not changed by a look at settings that are in force or cannot be loaded, but for
its warnings. -/
theorem run_lookedUp_of_or_eq {looksUp : Bool}
    (h : s.settings.or (if looksUp then s.loaded? host else none) = s.settings)
    (requests : List Request) :
    ((s.lookedUp host looksUp).run host requests).1 = (s.run host requests).1 :=
  run_congr (s := s.lookedUp host looksUp) (t := s) h rfl rfl requests

/-- The session behind a look at the settings is the session itself, or is ahead of it. -/
theorem ahead_lookedUp (host : Host) (s : Session) (looksUp : Bool) :
    Ahead host { s with warnings := [] } (s.lookedUp host looksUp) := by
  let start : Session := { s with warnings := [] }
  cases hloaded : if looksUp then s.loaded? host else none with
  | none =>
    have hsame : s.lookedUp host looksUp = start := by
      rw [lookedUp, hloaded, Option.or_none]
    rw [hsame]
    exact .same
  | some x =>
    rcases Option.eq_none_or_eq_some s.settings with hs | ⟨inForce, hs⟩
    · have hahead : s.lookedUp host looksUp = start.inForce x := by
        rw [lookedUp, hs, hloaded]
        rfl
      have hload : start.loaded? host = some x := by
        split at hloaded
        · exact hloaded
        · cases hloaded
      rw [hahead]
      exact .loaded hs hload
    · have hsame : s.lookedUp host looksUp = start := by
        rw [lookedUp, hs, Option.some_or, ← hs]
      rw [hsame]
      exact .same

/-! ### What tells sessions apart -/

/-- Behind a new environment the settings are those in force, or else those that are loaded from
it. -/
theorem result_settings_of_setEnvironment (s : Session) (environment : Environment) :
    (s.run host [.setEnvironment environment, .settings]).1.map Response.result =
      [.ok .nothing, (match s.settings with
        | some inForce => Except.ok inForce
        | none => Settings.load host.files none environment).map .settings] := by
  let later : Session := { s with environment, warnings := [] }
  exact congrArg (fun result => [Except.ok .nothing, result]) later.respond_settings

/-- A session without settings is told apart from one with settings in force. -/
theorem exists_run_ne {t : Session} {x : Settings} (hs : s.settings = none)
    (ht : t.settings = some x) :
    ∃ requests, (t.run host requests).1 ≠ (s.run host requests).1 := by
  -- seconds are compared in the one session exactly if they are not in the other
  let compares : Bool := !x.comparesSeconds
  let environment := secondsEnvironment (if compares then "on" else "off")
  refine ⟨[.setEnvironment environment, .settings], fun hsame => ?_⟩
  have hresults := congrArg (List.map Response.result) hsame
  rw [result_settings_of_setEnvironment, result_settings_of_setEnvironment, hs, ht,
    load_secondsEnvironment] at hresults
  have hx : x = { matchSeconds := .bool compares } := by
    simpa [Except.map] using hresults
  have hcompares : x.comparesSeconds = compares := by rw [hx]; rfl
  exact (Bool.eq_not_self _).mp hcompares

/-! ### Behind a look at the settings -/

/-- A look at the settings has no influence on later requests, whatever they are, exactly if there
is none, or settings are in force already, or cannot be loaded. -/
theorem forall_run_lookedUp_iff {looksUp : Bool} :
    (∀ requests, ((s.lookedUp host looksUp).run host requests).1 = (s.run host requests).1) ↔
      looksUp = false ∨ s.settings.isSome = true ∨ s.loaded? host = none := by
  constructor
  · intro hall
    by_contra hnone
    -- settings are in force behind the look at them, and not before it
    simp only [not_or, Bool.not_eq_false, Bool.not_eq_true, Option.isSome_eq_false_iff,
      Option.isNone_iff_eq_none] at hnone
    obtain ⟨hlooks, hs, hload⟩ := hnone
    obtain ⟨x, hx⟩ := Option.ne_none_iff_exists'.mp hload
    have hsettings : (s.lookedUp host looksUp).settings = some x := by
      simp [lookedUp, hlooks, hs, hx]
    obtain ⟨requests, hne⟩ := exists_run_ne hs hsettings
    exact hne (hall requests)
  · rintro (hlooks | hs | hload)
    · exact run_lookedUp_of_or_eq (by simp [hlooks])
    · obtain ⟨inForce, hs⟩ := Option.isSome_iff_exists.mp hs
      exact run_lookedUp_of_or_eq (by rw [hs, Option.some_or])
    · exact run_lookedUp_of_or_eq (by rw [hload, ite_self, Option.or_none])

/-- In any session it has none on requests of which none sets an environment that makes a difference
before settings are in force, or are forgotten. -/
theorem run_lookedUp_append (looksUp : Bool) {requests later : List Request}
    (hrequests : ∀ r ∈ requests, LoadsLike host s.environment r)
    (hmeet : later = [] ∨ (s.reached host requests).settings.isSome = true ∨
      ∃ r ∈ requests, r.forgets = true) :
    ((s.lookedUp host looksUp).run host (requests ++ later)).1 =
      (s.run host (requests ++ later)).1 := by
  let start : Session := { s with warnings := [] }
  have hreached : (start.reached host requests).settings = (s.reached host requests).settings := by
    cases requests <;> rfl
  rw [← (ahead_lookedUp host s looksUp).run_append hrequests (hreached ▸ hmeet)]
  exact run_congr (s := start) (t := s) rfl rfl rfl _

/-! ### Calls to configure that fail -/

/-- Behind a call to configure that fails responses are as behind a request for the settings, where
the call has no basis of its own and its overrides do not name one, and elsewhere as without the
call.

So the call has no influence on later requests, whatever they are, exactly if it has a basis of its
own, or its overrides name one, or settings are in force or cannot be loaded.  In any other session
it has none on requests of which none sets an environment that makes a difference before settings
are in force without the call, or are forgotten. -/
theorem run_rejected (host : Host) {e : Error}
    (h : (s.respond host (.configure base overrides)).1.result = .error e) :
    let rejected := (s.respond host (.configure base overrides)).2
    (∀ requests, (rejected.run host requests).1 =
      if base.isNone && (Entries.get? overrides Call.baseName).isNone then
        ((s.respond host .settings).2.run host requests).1
      else (s.run host requests).1) ∧
    ((∀ requests, (rejected.run host requests).1 = (s.run host requests).1) ↔
      base.isSome = true ∨ (Entries.get? overrides Call.baseName).isSome = true ∨
        s.settings.isSome = true ∨ s.loaded? host = none) ∧
    ∀ requests later : List Request, (∀ r ∈ requests, LoadsLike host s.environment r) →
      (later = [] ∨ (s.reached host requests).settings.isSome = true ∨
        ∃ r ∈ requests, r.forgets = true) →
      (rejected.run host (requests ++ later)).1 = (s.run host (requests ++ later)).1 := by
  intro rejected
  let looksUp := base.isNone && (Entries.get? overrides Call.baseName).isNone
  have hrejected : rejected = s.lookedUp host looksUp := behind_configure_of_error h
  have hlooks : looksUp = false ↔
      base.isSome = true ∨ (Entries.get? overrides Call.baseName).isSome = true := by
    rw [Bool.and_eq_false_iff, Option.isNone_eq_false_iff, Option.isNone_eq_false_iff]
  rw [hrejected]
  refine ⟨fun requests => ?_, ?_, fun requests later => run_lookedUp_append looksUp⟩
  · split
    · next htrue => rw [behind_settings, show looksUp = true from htrue]
    · next hfalse =>
      exact forall_run_lookedUp_iff.mpr (.inl (Bool.not_eq_true _ ▸ hfalse)) requests
  · rw [forall_run_lookedUp_iff, hlooks, or_assoc]

/-- An override that names no setting is rejected. -/
theorem result_configure_colour :
    (({} : Session).respond {} (.configure none [("colour", .text "blue")])).1.result =
      .error (.settings (.unknown [Text.symbols "colour"])) := by
  let overrides : List (String × Value) := [("colour", .text "blue")]
  have hbasis : Call.basis {} {} none = .ok {} := Settings.ofEntries_nil
  have hunknown : unknownNames (underNames (Entries.merge ({} : Draft).entries overrides)) =
      some [Text.symbols "colour"] := by
    show some (List.mergeSort [Text.symbols "colour"] Text.inOrder) = _
    rw [List.mergeSort_singleton]
  have hoverridden : Call.overridden {} overrides =
      .error (.settings (.unknown [Text.symbols "colour"])) := by
    show Settings.ofEntries (underNames (Entries.merge ({} : Draft).entries overrides)) = _
    unfold Settings.ofEntries
    rw [hunknown]
    rfl
  rw [result_respond_configure, Call.outcome_configure_fst rfl]
  show Except.map _ (Call.basis {} {} none >>= fun previous => Call.overridden previous _) = _
  rw [hbasis, ok_bind, hoverridden]
  rfl

/-- A rejected override comes to nothing where the settings are needed before the environment
changes. -/
theorem run_rejected_colour :
    let s : Session := {}
    let configure : Request := .configure none [("colour", .text "blue")]
    let later : List Request := [.setEnvironment (secondsEnvironment "on"), .settings]
    (s.respond {} configure).1.result = .error (.settings (.unknown [Text.symbols "colour"])) ∧
      ((s.respond {} configure).2.run {} (.settings :: later)).1 =
        (s.run {} (.settings :: later)).1 := by
  intro s configure later
  have hloaded : (s.reached {} [.settings]).settings.isSome = true := by
    rw [reached_cons, behind_settings]
    exact Option.isSome_of_eq_some loaded?_empty
  refine ⟨result_configure_colour, (run_rejected {} result_configure_colour).2.2 [.settings] later
    (fun r hr environment heq => ?_) (.inr (.inl hloaded))⟩
  rw [List.mem_singleton.mp hr] at heq
  cases heq

/-- It makes a difference where the environment changes first. -/
theorem run_rejected_colour_ne :
    let s : Session := {}
    let configure : Request := .configure none [("colour", .text "blue")]
    let later : List Request := [.setEnvironment (secondsEnvironment "on"), .settings]
    (s.respond {} configure).1.result = .error (.settings (.unknown [Text.symbols "colour"])) ∧
      ((s.respond {} configure).2.run {} later).1 ≠ (s.run {} later).1 := by
  intro s configure later
  refine ⟨result_configure_colour, fun hsame => ?_⟩
  have hrejected : (s.respond {} configure).2.settings = some {} := by
    rw [behind_configure_of_error result_configure_colour]
    exact loaded?_empty
  have hresults := congrArg (List.map Response.result) hsame
  rw [result_settings_of_setEnvironment, result_settings_of_setEnvironment, hrejected,
    show s.settings = none from rfl] at hresults
  have hload : Settings.load {} none (secondsEnvironment "on") =
      .ok { matchSeconds := .bool true } :=
    load_secondsEnvironment {} true
  have hdefault : ({} : Settings) = { matchSeconds := .bool true } := by
    simpa [hload, Except.map] using hresults
  exact Bool.false_ne_true (congrArg Settings.comparesSeconds hdefault)

end Session

end CronSchedule
